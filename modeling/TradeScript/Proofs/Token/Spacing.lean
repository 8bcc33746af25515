import TradeScript.Proofs.Code.Layout
import TradeScript.Proofs.Token.ByLine

/-!
# Tokens with single blanks between them

Every token of a text is read alone where a gap follows it (`Token.readAlone_of_mem_ofText`): it
spells its kind, or it is one stray character, which a gap keeps from being the sign of a marker. So
the texts of tokens with single blanks between them are lexed to the same kinds and texts
(`Token.lexemes_of_single_blanks`).
-/

namespace TradeScript

open Text Fragment

/-! ## Stray characters -/

theorem Text.Numeral.not_breaks {cs : List Char} {n : Nat} (h : Numeral cs n) (rest : List Char) :
    ¬Breaks (cs ++ rest) := by
  intro breaks
  obtain ⟨digits, rfl | rfl, nonempty, all, -, -⟩ := h
  · obtain ⟨c, digits, rfl⟩ := List.exists_cons_of_ne_nil nonempty
    rw [List.all_cons, Bool.and_eq_true] at all
    have not_word := isWordChar_of_breaks breaks c rfl
    simp [isWordChar, all.1] at not_word
  · rcases breaks '+' rfl with gap | comma | semicolon
    · cases gap
    · cases comma
    · cases semicolon

theorem Text.Breaks.takeWhile {rest : List Char} (h : Breaks rest) (p : Char → Bool) :
    Breaks (rest.takeWhile p) := by
  cases rest with
  | nil => exact h
  | cons c rest =>
    rw [List.takeWhile_cons]
    split
    · exact h
    · exact breaks_nil

/-- A sign that no word goes on with does not start a marker. -/
theorem Marker.read?_eq_none_of_breaks {rest : List Char} (h : Breaks rest) (c : Char) :
    Marker.read? (c :: rest) = none := by
  refine Option.eq_none_iff_forall_ne_some.2 ?_
  rintro ⟨n, path⟩ marker
  obtain ⟨numeral, whole, number⟩ := Marker.read?_eq_some_iff.1 marker
  rw [(List.cons.inj whole).2] at h
  exact number.not_breaks _ h

namespace Token

theorem readAlone_stray {c : Char} (stray : Stray c) : ReadAlone .unknown [c] := by
  intro rest breaks here glued
  have not_newline : c ≠ '\n' := by
    rintro rfl
    cases stray.visible
  have no_marker :
      (if here.column = 1 then Marker.read? (c :: rest.takeWhile (· ≠ '\n')) else none) = none := by
    rw [Marker.read?_eq_none_of_breaks (breaks.takeWhile _) c, ite_self]
  have cut_eq : cut c rest = (.stray, [c], rest) := by
    simp [cut, stray.not_word, stray.not_quote, stray.not_mark]
  refine ⟨here.advance 1, ?_⟩
  rw [List.singleton_append, scan, if_neg not_newline, no_marker]
  simp only [stray.visible, Bool.false_eq_true, if_false, cut_eq]
  have alone : joined ⟨.stray, [c], here, glued⟩ (scan (here.advance 1) true rest) =
      (some .unknown, [], _) := rfl
  rw [List.length_singleton, lexemes_cons alone]
  simp

/-- A token of a text is read alone where a gap follows it. -/
theorem readAlone_of_mem_ofText {file text : String} {t : Token} (h : t ∈ ofText file text) :
    ReadAlone t.kind t.value.toList := by
  rcases stray_or_spelling_of_mem_ofText h with ⟨unknown, c, alone, stray⟩ | spelling
  · rw [unknown, alone]
    exact readAlone_stray stray
  · exact lex_spelling spelling

end Token

/-! ## Single blanks -/

theorem Text.spaced_intercalate (words : List (List Char)) :
    Spaced words ([' '].intercalate words) := by
  induction words with
  | nil => exact .nil rfl
  | cons word others ih =>
    cases others with
    | nil =>
      have alone : Spaced [word] ([] ++ word ++ []) := .cons rfl breaks_nil (.nil rfl)
      exact alone
    | cons next others =>
      have more : Spaced (next :: others) ([' '] ++ [' '].intercalate (next :: others)) :=
        ih.gap rfl
      have whole : Spaced (word :: next :: others) ([] ++ word ++ ([' '] ++ _)) :=
        .cons rfl (breaks_of_isGap rfl _) more
      rwa [List.intercalate_cons_cons, List.append_assoc]

namespace Token

/-- Tokens of a text with single blanks between them are lexed to the same kinds and texts. -/
theorem lexemes_of_single_blanks (file file' text : String) :
    (ofText file' (" ".intercalate ((ofText file text).map value))).map lexeme =
      (ofText file text).map lexeme := by
  have spaced := spaced_intercalate (((ofText file text).map lexeme).map fun l => l.2.toList)
  have words : ((ofText file text).map lexeme).map (fun l => l.2.toList) =
      ((ofText file text).map value).map String.toList := by
    simp [lexeme]
  have alone : ∀ l ∈ (ofText file text).map lexeme, ReadAlone l.1 l.2.toList := by
    intro l mem
    obtain ⟨t, mem_t, rfl⟩ := List.mem_map.1 mem
    exact readAlone_of_mem_ofText mem_t
  rw [ofText, Fragment.ofText, String.toList_intercalate, ← words]
  exact lexemes_of_spaced spaced alone _ _

end Token

end TradeScript
