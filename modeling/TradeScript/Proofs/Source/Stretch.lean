import TradeScript.Proofs.Source.Comment
import TradeScript.Proofs.Token.OnePass

/-!
# Comments as stretches of a script

From left to right, a script falls into literals, line comments, block comments and other characters
(`stretches`). Taking out its comments keeps the literals and the other characters, and puts a blank
and the newlines of the comment in the place of each comment. So no newline is lost, and there is
nothing more to take out afterwards (`stripComments_eq_flatMap`).
-/

namespace TradeScript

open Text

/-! ## Stretches -/

/-- A part of a script that is kept or taken out as a whole. -/
inductive Stretch
  | literal (text : List Char)
  | lineComment (text : List Char)
  | blockComment (text : List Char)
  | other (c : Char)

namespace Stretch

/-- The characters of a stretch. -/
def text : Stretch → List Char
  | literal text => text
  | lineComment text => text
  | blockComment text => text
  | other c => [c]

/-- What is left of a stretch: all of it, or for a comment a blank and its newlines. -/
def left : Stretch → List Char
  | literal text => text
  | lineComment _ => [' ']
  | blockComment text => ' ' :: text.filter (· = '\n')
  | other c => [c]

/-- The rest of a literal after its opening quote: up to the first unescaped quote, or else the rest
of the line. -/
def literalRest (quote : Char) (cs : List Char) : List Char :=
  (Token.literal? quote (cs.takeWhile (· ≠ '\n'))).getD (cs.takeWhile (· ≠ '\n'))

/-- The rest of a block comment after its opener: up to the first star with a slash behind it, or
else the rest of the script. -/
def blockRest (cs : List Char) : List Char :=
  (cs.inits.find? ['*', '/'].isSuffixOf).getD cs

/-- The stretch at the front of a script. -/
def first (c : Char) (cs : List Char) : Stretch :=
  if c = '"' ∨ c = '\'' then literal (c :: literalRest c cs)
  else if ['/', '/'].isPrefixOf (c :: cs) then lineComment (c :: cs.takeWhile (· ≠ '\n'))
  else if ['/', '*'].isPrefixOf (c :: cs) then blockComment ('/' :: '*' :: blockRest (cs.drop 1))
  else other c

theorem first_text_ne_nil (c : Char) (cs : List Char) : (first c cs).text ≠ [] := by
  unfold first
  repeat' split
  all_goals exact List.cons_ne_nil _ _

end Stretch

/-- The stretches of a script from left to right. -/
def stretches : List Char → List Stretch
  | [] => []
  | c :: cs => .first c cs :: stretches ((c :: cs).drop (Stretch.first c cs).text.length)
  termination_by cs => cs.length
  decreasing_by
    have some_text := List.length_pos_iff.2 (Stretch.first_text_ne_nil c cs)
    simp only [List.length_drop, List.length_cons]
    omega

theorem drop_length_takeWhile {α : Type} (p : α → Bool) (l : List α) :
    l.drop (l.takeWhile p).length = l.dropWhile p := by
  calc l.drop (l.takeWhile p).length
    _ = (l.takeWhile p ++ l.dropWhile p).drop (l.takeWhile p).length := by
        rw [List.takeWhile_append_dropWhile]
    _ = l.dropWhile p := List.drop_left

/-! ## Literals -/

/-- In a literal everything is kept, up to the closing quote or else to the end of the line. -/
theorem stripFrom_quoted (quote : Char) (cs : List Char) : stripFrom (.quoted quote) cs =
    match Fragment.closing? quote cs with
    | some (body, rest) => body ++ stripFrom .code rest
    | none => cs.takeWhile (· ≠ '\n') ++ stripFrom .code (cs.dropWhile (· ≠ '\n')) := by
  fun_induction Fragment.closing? quote cs with
  | case1 => rfl
  | case2 cs => simp [stripFrom]
  | case3 => simp [stripFrom]
  | case4 ds => simp [stripFrom]
  | case5 d ds not_newline _ ih =>
    rw [stripFrom, if_neg not_newline, ih]
    cases Fragment.closing? quote ds <;> simp [not_newline]
  | case6 cs not_newline not_escape =>
    rw [stripFrom_quoted_cons not_escape, if_pos (.inr rfl)]
    rfl
  | case7 c cs not_newline not_escape other ih =>
    rw [stripFrom_quoted_cons not_escape, if_neg (not_or.2 ⟨not_newline, other⟩), ih]
    cases Fragment.closing? quote cs <;> simp [not_newline]

/-- The first unescaped quote on the line closes a literal. -/
theorem literal?_takeWhile {quote : Char} (unslashed : quote ≠ '\\') (cs : List Char) :
    Token.literal? quote (cs.takeWhile (· ≠ '\n')) =
      (Fragment.closing? quote cs).map Prod.fst := by
  by_cases newline : '\n' ∈ cs
  · obtain ⟨line, rest, rfl, inside⟩ := List.eq_append_cons_of_mem newline
    rw [(takeWhile_ne inside rest).1, Token.literal?_eq unslashed inside,
      Fragment.closing?_line quote inside, Option.map_map]
    rfl
  · rw [(takeWhile_ne_eq_self newline).1, Token.literal?_eq unslashed newline]

theorem stripFrom_quoted_eq_literalRest {quote : Char} (unslashed : quote ≠ '\\')
    (cs : List Char) : stripFrom (.quoted quote) cs = Stretch.literalRest quote cs ++
      stripFrom .code (cs.drop (Stretch.literalRest quote cs).length) := by
  rw [stripFrom_quoted, Stretch.literalRest, literal?_takeWhile unslashed]
  cases closed : Fragment.closing? quote cs with
  | some parts =>
    have whole := Fragment.closing?_append closed
    simp [← whole]
  | none =>
    rw [Option.map_none, Option.getD_none, drop_length_takeWhile]

/-! ## Comments -/

theorem stripFrom_lineComment (cs : List Char) :
    stripFrom .lineComment cs = stripFrom .code (cs.dropWhile (· ≠ '\n')) := by
  induction cs with
  | nil => rfl
  | cons c cs ih =>
    by_cases newline : c = '\n'
    · simp [stripFrom, newline]
    · simp [stripFrom, newline, ih]

/-- The rest of a block comment, up to its end, behind a star or not. -/
def blockEnd? (afterStar : Bool) (cs : List Char) : Option (List Char) :=
  cs.inits.find? fun front => ['*', '/'].isSuffixOf (if afterStar then '*' :: front else front)

theorem suffix_end_cons_iff {c : Char} (other : c ≠ '*') (front : List Char) :
    ['*', '/'] <:+ c :: front ↔ ['*', '/'] <:+ front := by
  rw [List.suffix_cons_iff, or_iff_right]
  intro same
  exact other (List.cons.inj same).1.symm

theorem blockEnd?_cons (afterStar : Bool) (c : Char) (cs : List Char) :
    blockEnd? afterStar (c :: cs) = if afterStar = true ∧ c = '/' then some [c]
      else (blockEnd? (c = '*') cs).map (c :: ·) := by
  have none_yet : ['*', '/'].isSuffixOf (if afterStar then ['*'] else []) = false := by
    cases afterStar <;> rfl
  rw [blockEnd?, List.inits_cons, List.find?_cons_of_neg (by simp [none_yet]), List.find?_map]
  by_cases closes : afterStar = true ∧ c = '/'
  · obtain ⟨rfl, rfl⟩ := closes
    cases cs <;> simp
  · rw [if_neg closes, blockEnd?]
    congr 2
    funext front
    rw [Bool.eq_iff_iff, Function.comp_apply, List.isSuffixOf_iff_suffix,
      List.isSuffixOf_iff_suffix]
    -- a star before the character matters only if a slash is to follow it
    have behind_star : ['*', '/'] <:+ (if afterStar then '*' :: c :: front else c :: front) ↔
        ['*', '/'] <:+ c :: front := by
      cases afterStar with
      | false => rfl
      | true =>
        rw [if_pos rfl, List.suffix_cons_iff, or_iff_right]
        intro same
        exact closes ⟨rfl, (List.cons.inj (List.cons.inj same).2).1.symm⟩
    rw [behind_star]
    by_cases star : c = '*'
    · simp [star]
    · simp [star, suffix_end_cons_iff star]

theorem stripFrom_blockComment (afterStar : Bool) (cs : List Char) :
    stripFrom (.blockComment afterStar) cs =
      ((blockEnd? afterStar cs).getD cs).filter (· = '\n') ++
        stripFrom .code (cs.drop ((blockEnd? afterStar cs).getD cs).length) := by
  induction cs generalizing afterStar with
  | nil => cases afterStar <;> rfl
  | cons c cs ih =>
    rw [stripFrom, blockEnd?_cons]
    by_cases newline : c = '\n'
    · subst newline
      have opened : blockEnd? (decide ('\n' = '*')) cs = blockEnd? false cs := rfl
      rw [if_pos rfl, ih, if_neg (by simp), opened]
      cases blockEnd? false cs <;> simp
    · by_cases closes : afterStar = true ∧ c = '/'
      · simp [if_pos closes, newline]
      · rw [if_neg newline, if_neg closes, if_neg closes, ih]
        cases blockEnd? (decide (c = '*')) cs <;> simp [newline]

/-! ## The stretch at the front -/

namespace Stretch

theorem literalRest_isPrefix (quote : Char) (cs : List Char) : literalRest quote cs <+: cs := by
  refine List.IsPrefix.trans ?_ (List.takeWhile_prefix (· ≠ '\n'))
  rw [literalRest]
  cases found : Token.literal? quote (cs.takeWhile (· ≠ '\n')) with
  | some body => exact (List.mem_inits _ _).1 (List.mem_of_find?_eq_some found)
  | none => exact List.prefix_refl _

theorem blockRest_isPrefix (cs : List Char) : blockRest cs <+: cs := by
  rw [blockRest]
  cases found : cs.inits.find? ['*', '/'].isSuffixOf with
  | some body => exact (List.mem_inits _ _).1 (List.mem_of_find?_eq_some found)
  | none => exact List.prefix_refl _

/-- What a script can begin with. -/
theorem first_cases (c : Char) (cs : List Char) :
    ((c = '"' ∨ c = '\'') ∧ first c cs = literal (c :: literalRest c cs)) ∨
    (∃ rest, c = '/' ∧ cs = '/' :: rest ∧
      first c cs = lineComment ('/' :: '/' :: rest.takeWhile (· ≠ '\n'))) ∨
    (∃ rest, c = '/' ∧ cs = '*' :: rest ∧
      first c cs = blockComment ('/' :: '*' :: blockRest rest)) ∨
    (¬(c = '"' ∨ c = '\'') ∧ (c = '/' → cs.head? ≠ some '/' ∧ cs.head? ≠ some '*') ∧
      first c cs = other c) := by
  unfold first
  split
  · next quote => exact .inl ⟨quote, rfl⟩
  · next no_quote =>
    split
    · next opens =>
      obtain ⟨rest, whole⟩ := List.isPrefixOf_iff_prefix.1 opens
      cases whole
      exact .inr (.inl ⟨rest, rfl, rfl, by simp⟩)
    · next no_line =>
      split
      · next opens =>
        obtain ⟨rest, whole⟩ := List.isPrefixOf_iff_prefix.1 opens
        cases whole
        exact .inr (.inr (.inl ⟨rest, rfl, rfl, rfl⟩))
      · next no_block =>
        refine .inr (.inr (.inr ⟨no_quote, ?_, rfl⟩))
        rintro rfl
        constructor
        all_goals
          intro head
          obtain ⟨rest, rfl⟩ := List.head?_eq_some_iff.1 head
          simp at no_line no_block

theorem first_text_isPrefix (c : Char) (cs : List Char) : (first c cs).text <+: c :: cs := by
  obtain ⟨-, first⟩ | ⟨rest, rfl, rfl, first⟩ | ⟨rest, rfl, rfl, first⟩ | ⟨-, -, first⟩ :=
    first_cases c cs
  · rw [first]
    exact (List.prefix_cons_inj c).2 (literalRest_isPrefix c cs)
  · rw [first]
    exact (List.prefix_append_right_inj ['/', '/']).2 (List.takeWhile_prefix _)
  · rw [first]
    exact (List.prefix_append_right_inj ['/', '*']).2 (blockRest_isPrefix rest)
  · rw [first]
    exact List.prefix_append [c] cs

end Stretch

/-! ## What is left of a script -/

/-- Stretches are the script, cut into parts. -/
theorem flatMap_text_stretches (cs : List Char) : (stretches cs).flatMap Stretch.text = cs := by
  induction cs using stretches.induct with
  | case1 => simp [stretches]
  | case2 c cs ih =>
    rw [stretches, List.flatMap_cons, ih]
    exact List.prefix_iff_eq_append.1 (Stretch.first_text_isPrefix c cs)

/-- In code, the stretch at the front leaves what is left of it, and code follows. -/
theorem stripFrom_code_cons (c : Char) (cs : List Char) :
    stripFrom .code (c :: cs) = (Stretch.first c cs).left ++
      stripFrom .code ((c :: cs).drop (Stretch.first c cs).text.length) := by
  obtain ⟨quote, first⟩ | ⟨rest, rfl, rfl, first⟩ | ⟨rest, rfl, rfl, first⟩ |
    ⟨no_quote, no_comment, first⟩ := Stretch.first_cases c cs
  · have opens : stripFrom .code (c :: cs) = c :: stripFrom (.quoted c) cs := by
      rcases quote with rfl | rfl <;> simp [stripFrom]
    have unslashed : c ≠ '\\' := by
      rcases quote with rfl | rfl <;> decide
    rw [opens, stripFrom_quoted_eq_literalRest unslashed, first]
    rfl
  · rw [stripFrom, stripFrom_lineComment, ← drop_length_takeWhile, first]
    rfl
  · have opened : blockEnd? false rest = rest.inits.find? ['*', '/'].isSuffixOf := rfl
    rw [stripFrom, stripFrom_blockComment, opened, first]
    simp [Stretch.left, Stretch.text, Stretch.blockRest]
  · rw [stripFrom, if_neg no_quote, first]
    · rfl
    · rintro rest rfl rfl
      exact (no_comment rfl).1 rfl
    · rintro rest rfl rfl
      exact (no_comment rfl).2 rfl

theorem stripFrom_code_eq_flatMap (cs : List Char) :
    stripFrom .code cs = (stretches cs).flatMap Stretch.left := by
  induction cs using stretches.induct with
  | case1 => simp [stretches, stripFrom]
  | case2 c cs ih => rw [stripFrom_code_cons, ih, stretches, List.flatMap_cons]

theorem count_newline_stripFrom (region : Region) (cs : List Char) :
    (stripFrom region cs).count '\n' = cs.count '\n' := by
  fun_induction stripFrom region cs
  all_goals simp_all [List.count_cons]

/-! ## Nothing is left to take out -/

/-- What a stripped script is read as, if the script was read from a region on. -/
def Region.stripped : Region → Region
  | quoted quote => quoted quote
  | _ => code

theorem stripFrom_stripped (region : Region) (cs : List Char) :
    stripFrom region.stripped (stripFrom region cs) = stripFrom region cs := by
  fun_induction stripFrom region cs with
  | case1 region => cases region <;> rfl
  | case4 c cs no_line no_block ih =>
    have same : (if c = '"' ∨ c = '\'' then Region.quoted c else .code).stripped =
        if c = '"' ∨ c = '\'' then .quoted c else .code := by
      split <;> rfl
    rw [same] at ih
    -- a slash is not followed by what could make it a comment now, for no comment followed it
    have separate {d : Char} {rest : List Char} (slash : c = '/')
        (next : stripFrom (if c = '"' ∨ c = '\'' then .quoted c else .code) cs = d :: rest) :
        (∃ behind, cs = d :: behind) ∨ d = ' ' := by
      subst slash
      obtain ⟨behind, whole, -⟩ | ⟨blank, -⟩ := stripFrom_code_cases next
      · exact .inl ⟨behind, whole⟩
      · exact .inr blank
    show stripFrom .code (c :: _) = _
    rw [stripFrom, ih]
    · intro rest slash next
      obtain ⟨behind, rfl⟩ | blank := separate slash next
      · exact no_line behind slash rfl
      · cases blank
    · intro rest slash next
      obtain ⟨behind, rfl⟩ | blank := separate slash next
      · exact no_block behind slash rfl
      · cases blank
  | case7 quote c cs single ih =>
    by_cases escape : c = '\\'
    · obtain rfl : cs = [] := by
        cases cs with
        | nil => rfl
        | cons d cs => exact (single d cs escape rfl).elim
      simp [stripFrom, Region.stripped, escape]
    · rw [Region.stripped, stripFrom_quoted_cons escape]
      have same : (if c = '\n' ∨ c = quote then Region.code else .quoted quote).stripped =
          if c = '\n' ∨ c = quote then .code else .quoted quote := by
        split <;> rfl
      rw [same] at ih
      rw [ih]
  | _ => simp_all [stripFrom, Region.stripped]

/-! ## All stretches -/

/-- A script falls into stretches from left to right. Without comments it consists of what is left
of these, with as many newlines as before and without comments. -/
theorem stripComments_eq_flatMap (cs : List Char) :
    (stretches cs).flatMap Stretch.text = cs ∧
      stripComments cs = (stretches cs).flatMap Stretch.left ∧
      (stripComments cs).count '\n' = cs.count '\n' ∧
      stripComments (stripComments cs) = stripComments cs :=
  ⟨flatMap_text_stretches cs, stripFrom_code_eq_flatMap cs, count_newline_stripFrom .code cs,
    stripFrom_stripped .code cs⟩

/-- The star of an opener does not end the comment that it opens. -/
example : stripComments "a/*/ b\n*//c".toList = "a \n/c".toList := by
  decide

end TradeScript
