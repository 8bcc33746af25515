import TradeScript.Proofs.Token.OnePass

/-!
# What lexing keeps of a text

The lines of a text without markers are lexed one by one (`Token.ofText_eq_flatMap`), and the tokens
of a line are laid out along it (`Token.Laid`). So every token is found in the text at its start,
tokens follow each other without overlap, and what is in no token is blank or belongs to a literal
that its line does not close (`Token.ofText_faithful`).
-/

namespace TradeScript

open Text Fragment

namespace Token

/-! ## Places of tokens and of what they leave out -/

/-- A token ends before another one starts. -/
def Precedes (t u : Token) : Prop :=
  t.start.line < u.start.line ∨
    t.start.line = u.start.line ∧ t.start.column + t.width ≤ u.start.column

/-- A place lies in a token. -/
def Covers (t : Token) (line column : Nat) : Prop :=
  t.start.line = line ∧ t.start.column ≤ column ∧ column < t.start.column + t.width

/-- At an index of a line there is a quote for which the rest of the line has no closing one. -/
def Unclosed (row : List Char) (i : Nat) : Prop :=
  ∃ q : Quote, row[i]? = some q.char ∧ literal? q.char (row.drop (i + 1)) = none

theorem Unclosed.append_left {row : List Char} {i : Nat} (h : Unclosed row i)
    (front : List Char) : Unclosed (front ++ row) (front.length + i) := by
  obtain ⟨q, quote, literal⟩ := h
  refine ⟨q, ?_, ?_⟩
  · rw [List.getElem?_append_right (Nat.le_add_right _ _), Nat.add_sub_cancel_left, quote]
  · rwa [Nat.add_assoc, List.drop_length_add_append]

/-! ## Tokens along a line -/

/-- Tokens stand one after another in a line whose first character is at a place. Between them there
are blanks, and a literal that is not closed may take the rest of the line. -/
inductive Laid : Position → List Char → List Token → Prop
  | nil (here : Position) : Laid here [] []
  | blank {here : Position} {c : Char} {cs : List Char} {ts : List Token} (blank : isBlank c = true)
      (more : Laid (here.advance 1) cs ts) : Laid here (c :: cs) ts
  | token {here : Position} {kind : Terminal} {text cs : List Char} {ts : List Token}
      (nonempty : text ≠ []) (more : Laid (here.advance text.length) cs ts) :
      Laid here (text ++ cs) (⟨kind, String.ofList text, here⟩ :: ts)
  | unclosed {here : Position} {q : Quote} {cs : List Char}
      (literal : literal? q.char cs = none) : Laid here (q.char :: cs) []

theorem Laid.eq_nil {here : Position} {ts : List Token} (h : Laid here [] ts) : ts = [] := by
  generalize empty : ([] : List Char) = cs at h
  cases h with
  | nil => rfl
  | blank => cases empty
  | token nonempty => exact absurd (List.append_eq_nil_iff.mp empty.symm).1 nonempty
  | unclosed => rfl

theorem longest_unclosed {c : Char} {cs : List Char} (inside : '\n' ∉ cs)
    (h : (longest c cs).1 = none) :
    ∃ q : Quote, c = q.char ∧ literal? q.char cs = none ∧ (longest c cs).2 = c :: cs := by
  have line := (takeWhile_ne_eq_self inside).1
  unfold longest at h ⊢
  rw [line] at h ⊢
  split at h
  · dsimp only at h
    split at h
    · cases h
    · split at h <;> cases h
  · next not_word =>
    rw [if_neg not_word]
    cases quote : Quote.ofChar? c with
    | some q =>
      obtain rfl := quote_char quote
      simp only [quote] at h ⊢
      split at h
      · cases h
      · next none_found => exact ⟨q, rfl, none_found, rfl⟩
    | none =>
      simp only [quote] at h
      split at h
      · next absurd_quote => cases absurd_quote
      all_goals cases h

/-- The tokens of a line are laid out along it. -/
theorem laid_line {here : Position} {line : List Char} (h : Plain here line) (glued : Bool) :
    Laid here line (ofFragments (scan here glued line)) := by
  refine line_induct .nil (fun here c cs tokens plain => .blank) ?_ h glued
  intro here c cs rest tokens plain visible nonempty whole ih
  cases kind : (longest c cs).1 with
  | some kind =>
    rw [longestToken?, kind, whole]
    exact .token nonempty ih
  | none =>
    have inside := plain.inside
    rw [List.mem_cons, not_or] at inside
    obtain ⟨q, rfl, literal, text⟩ := longest_unclosed inside.2 kind
    obtain rfl : rest = [] := by simpa [text] using whole
    obtain rfl := ih.eq_nil
    rw [longestToken?, kind]
    exact .unclosed literal

section

variable {here : Position} {cs : List Char} {ts : List Token}

theorem Laid.stands (h : Laid here cs ts) : ∀ t ∈ ts, t.value ≠ "" ∧
    ∃ gap rest, cs = gap ++ (t.value.toList ++ rest) ∧ t.start = here.advance gap.length := by
  induction h with
  | nil here => simp
  | @blank here c cs ts blank more ih =>
    intro t mem
    obtain ⟨nonempty, gap, rest, rfl, start⟩ := ih t mem
    refine ⟨nonempty, c :: gap, rest, rfl, ?_⟩
    rw [start, Position.advance_advance, List.length_cons, Nat.add_comm]
  | @token here kind text cs ts nonempty more ih =>
    rw [List.forall_mem_cons]
    refine ⟨⟨?_, [], cs, ?_, rfl⟩, fun t mem => ?_⟩
    · simpa [String.ofList_eq_empty_iff] using nonempty
    · rw [String.toList_ofList, List.nil_append]
    · obtain ⟨nonempty', gap, rest, rfl, start⟩ := ih t mem
      refine ⟨nonempty', text ++ gap, rest, (List.append_assoc _ _ _).symm, ?_⟩
      rw [start, Position.advance_advance, List.length_append]
  | unclosed literal => simp

theorem Laid.start_of_mem (h : Laid here cs ts) {t : Token} (mem : t ∈ ts) :
    t.start.line = here.line ∧ here.column ≤ t.start.column := by
  obtain ⟨-, gap, rest, -, start⟩ := h.stands t mem
  rw [start]
  exact ⟨rfl, Nat.le_add_right _ _⟩

theorem Laid.pairwise (h : Laid here cs ts) : ts.Pairwise Precedes := by
  induction h with
  | nil here => exact .nil
  | blank blank more ih => exact ih
  | @token here kind text cs ts nonempty more ih =>
    refine .cons (fun t mem => .inr ?_) ih
    obtain ⟨line, column⟩ := more.start_of_mem mem
    refine ⟨line.symm, ?_⟩
    rw [width, String.length_ofList]
    exact column
  | unclosed literal => exact .nil

/-- Every place of the line lies in a token, or is blank, or lies behind a quote that is not closed
and not followed by tokens. -/
theorem Laid.covers (h : Laid here cs ts) {i : Nat} {c : Char} (at_i : cs[i]? = some c) :
    (∃ t ∈ ts, t.Covers here.line (here.column + i)) ∨ isBlank c = true ∨
      ∃ j ≤ i, Unclosed cs j ∧ ∀ t ∈ ts, t.start.column + t.width ≤ here.column + j := by
  induction h generalizing i with
  | nil here => cases at_i
  | @blank here d cs ts blank more ih =>
    cases i with
    | zero =>
      cases at_i
      exact .inr (.inl blank)
    | succ i =>
      rw [List.getElem?_cons_succ] at at_i
      have column (k : Nat) : (here.advance 1).column + k = here.column + (1 + k) :=
        Nat.add_assoc _ _ _
      rw [Nat.add_comm i, ← column]
      obtain covered | blank' | ⟨j, le, unclosed, before⟩ := ih at_i
      · exact .inl covered
      · exact .inr (.inl blank')
      · refine .inr (.inr ⟨1 + j, Nat.add_le_add_left le 1, unclosed.append_left [d], ?_⟩)
        rwa [← column]
  | @token here kind text cs ts nonempty more ih =>
    by_cases inside : i < text.length
    · refine .inl ⟨_, List.mem_cons_self, rfl, Nat.le_add_right _ _, ?_⟩
      rw [width, String.length_ofList]
      exact Nat.add_lt_add_left inside _
    · obtain ⟨k, rfl⟩ := Nat.exists_eq_add_of_le (Nat.le_of_not_lt inside)
      rw [List.getElem?_append_right (Nat.le_add_right _ _), Nat.add_sub_cancel_left] at at_i
      have column (k : Nat) :
          (here.advance text.length).column + k = here.column + (text.length + k) :=
        Nat.add_assoc _ _ _
      rw [← column]
      obtain ⟨t, mem, covered⟩ | blank | ⟨j, le, unclosed, before⟩ := ih at_i
      · exact .inl ⟨t, List.mem_cons_of_mem _ mem, covered⟩
      · exact .inr (.inl blank)
      · refine .inr (.inr ⟨text.length + j, Nat.add_le_add_left le _, unclosed.append_left text, ?_⟩)
        rw [List.forall_mem_cons, ← column]
        refine ⟨?_, before⟩
        rw [width, String.length_ofList]
        exact Nat.le_add_right _ j
  | @unclosed here q cs literal =>
    exact .inr (.inr ⟨0, Nat.zero_le i, ⟨q, rfl, literal⟩, by simp⟩)

end

/-! ## Line by line -/

/-- A text without markers is lexed line by line. -/
theorem ofText_eq_flatMap {file text : String}
    (unmarked : ∀ row ∈ split '\n' text.toList, Marker.read? row = none) :
    ofText file text = (split '\n' text.toList).zipIdx.flatMap fun row =>
      ofFragments (scan ⟨file, row.2 + 1, 1⟩ false row.1) := by
  suffices all : ∀ cs n, (∀ row ∈ split '\n' cs, Marker.read? row = none) →
      ofFragments (scan ⟨file, n + 1, 1⟩ false cs) = ((split '\n' cs).zipIdx n).flatMap fun row =>
        ofFragments (scan ⟨file, row.2 + 1, 1⟩ false row.1) from all text.toList 0 unmarked
  intro cs
  induction cs using split_induct '\n' with
  | last line inside =>
    intro n unmarked
    simp [split_eq_singleton inside]
  | piece line rest inside ih =>
    intro n unmarked
    rw [split_append_cons inside, List.forall_mem_cons] at unmarked
    have plain : Plain ⟨file, n + 1, 1⟩ line := ⟨inside, Nat.le_refl 1, fun _ => unmarked.1⟩
    rw [ofFragments_scan_line plain, split_append_cons inside, List.zipIdx_cons, List.flatMap_cons]
    exact congrArg _ (ih (n + 1) unmarked.2)

/-- A token of a text where no line starts with the sign of a marker is found at its start; tokens
are in order and do not overlap; and every character is in a token, or blank, or behind a quote that
is not closed on its line and not followed by tokens. -/
theorem ofText_faithful {file text : String}
    (unsigned : ∀ row ∈ split '\n' text.toList, row.head? ≠ some '@') :
    (∀ t ∈ ofText file text, t.value ≠ "" ∧ ∃ n gap rest,
      (split '\n' text.toList)[n]? = some (gap ++ (t.value.toList ++ rest)) ∧
        t.start = ⟨file, n + 1, gap.length + 1⟩) ∧
    (ofText file text).Pairwise Precedes ∧
    ∀ (n : Nat) row (i : Nat) c, (split '\n' text.toList)[n]? = some row → row[i]? = some c →
      (∃ t ∈ ofText file text, t.Covers (n + 1) (i + 1)) ∨ isBlank c = true ∨
        ∃ j ≤ i, Unclosed row j ∧ ∀ t ∈ ofText file text, t.start.line = n + 1 →
          t.start.column + t.width ≤ j + 1 := by
  have unmarked : ∀ row ∈ split '\n' text.toList, Marker.read? row = none := by
    intro row mem
    cases row with
    | nil => rfl
    | cons c row => exact read?_eq_none (fun sign => unsigned _ mem (by rw [sign]; rfl)) row
  have laid : ∀ row ∈ (split '\n' text.toList).zipIdx, Laid ⟨file, row.2 + 1, 1⟩ row.1
      (ofFragments (scan ⟨file, row.2 + 1, 1⟩ false row.1)) := by
    intro row mem
    have mem' := List.mem_of_getElem? (List.mem_zipIdx_iff_getElem?.1 mem)
    exact laid_line ⟨mem_split mem', Nat.le_refl 1, fun _ => unmarked _ mem'⟩ false
  rw [ofText_eq_flatMap unmarked]
  refine ⟨fun t mem => ?_, ?_, fun n row i c at_n at_i => ?_⟩
  · obtain ⟨row, mem_row, mem⟩ := List.mem_flatMap.1 mem
    obtain ⟨nonempty, gap, rest, whole, start⟩ := (laid row mem_row).stands t mem
    refine ⟨nonempty, row.2, gap, rest, ?_, ?_⟩
    · rw [← whole]
      exact List.mem_zipIdx_iff_getElem?.1 mem_row
    · rw [start, Nat.add_comm gap.length]
      rfl
  · refine List.pairwise_flatMap.2 ⟨fun row mem => (laid row mem).pairwise, ?_⟩
    have ascending : (split '\n' text.toList).zipIdx.Pairwise fun a b => a.2 < b.2 := by
      rw [← List.pairwise_map (f := Prod.snd) (R := (· < ·)), List.zipIdx_map_snd]
      exact List.pairwise_lt_range' 1
    refine ascending.imp_of_mem fun mem mem' lt t in_a u in_b => .inl ?_
    rw [((laid _ mem).start_of_mem in_a).1, ((laid _ mem').start_of_mem in_b).1]
    exact Nat.succ_lt_succ lt
  · have mem : (row, n) ∈ (split '\n' text.toList).zipIdx := List.mk_mem_zipIdx_iff_getElem?.2 at_n
    obtain ⟨t, in_row, covered⟩ | blank | ⟨j, le, unclosed, before⟩ := (laid _ mem).covers at_i
    · have covered : t.Covers (n + 1) (1 + i) := covered
      rw [Nat.add_comm 1 i] at covered
      exact .inl ⟨t, List.mem_flatMap.2 ⟨_, mem, in_row⟩, covered⟩
    · exact .inr (.inl blank)
    · refine .inr (.inr ⟨j, le, unclosed, fun t mem_t line => ?_⟩)
      obtain ⟨⟨row', m⟩, mem', in_row'⟩ := List.mem_flatMap.1 mem_t
      have same := ((laid _ mem').start_of_mem in_row').1
      obtain rfl : m = n := Nat.succ_injective (same.symm.trans line)
      have at_n' := List.mk_mem_zipIdx_iff_getElem?.1 mem'
      rw [at_n] at at_n'
      cases at_n'
      rw [Nat.add_comm j]
      exact before t in_row'

/-- Two lines, of which the second ends in a literal that is not closed. -/
theorem faithful_of_lines :
    (ofText "a.dts" "x += 1.5;\n  y \"b").Pairwise Precedes ∧
      ((∃ t ∈ ofText "a.dts" "x += 1.5;\n  y \"b", t.Covers 2 6) ∨ isBlank 'b' = true ∨
        ∃ j ≤ 5, Unclosed "  y \"b".toList j ∧
          ∀ t ∈ ofText "a.dts" "x += 1.5;\n  y \"b", t.start.line = 2 →
            t.start.column + t.width ≤ j + 1) := by
  obtain ⟨-, ordered, complete⟩ :=
    @ofText_faithful "a.dts" "x += 1.5;\n  y \"b" (by decide +kernel)
  exact ⟨ordered, complete 1 _ 5 'b' (by decide +kernel) (by decide +kernel)⟩

end Token

end TradeScript
