import TradeScript.Source.Comment
import TradeScript.Proofs.Text.Lines
import TradeScript.Proofs.Token.Spelling

/-!
# What comments leave of a script

Comments are taken out region by region (`stripFrom`). A script without them is not longer, and it is
as long only if nothing was taken out (`stripFrom_eq_self`). Its lines are what is left of the lines
of the script, one for one (`exists_lines_of_stripFrom`).

Within a line, a cut of the script passes as some text if it leaves that text and what follows is read
as code again (`Region.Passes`): so do bare characters, whole literals, and the blank that is left of a
comment that ends on the line.
-/

namespace TradeScript

open Text

/-! ## Length -/

/-- Only a script without comments keeps its length. -/
theorem stripFrom_eq_self {region : Region} {cs : List Char}
    (h : (stripFrom region cs).length = cs.length) : stripFrom region cs = cs := by
  -- a comment of two characters or more leaves one blank, so the rest would have to grow
  have not_longer (region : Region) (cs : List Char) :
      ¬(stripFrom region cs).length = cs.length + 1 := by
    have := length_stripFrom_le region cs
    omega
  fun_induction stripFrom region cs
  all_goals simp_all

/-! ## Lines -/

/-- What the first character of a line can belong to. -/
def Region.StartsLine (region : Region) : Prop :=
  region = .code ∨ region = .blockComment false

theorem stripFrom_newline (region : Region) : ∃ next : Region, next.StartsLine ∧
    ∀ rest, stripFrom region ('\n' :: rest) = '\n' :: stripFrom next rest := by
  cases region with
  | code | quoted quote | lineComment => exact ⟨.code, .inl rfl, fun rest => by simp [stripFrom]⟩
  | blockComment afterStar =>
    exact ⟨.blockComment false, .inr rfl, fun rest => by simp [stripFrom]⟩

/-- A line is stripped on its own; it decides how the next line is read. -/
theorem stripFrom_line (region : Region) {line : List Char} (inside : '\n' ∉ line) :
    ∃ next : Region, next.StartsLine ∧ ∀ rest, stripFrom region (line ++ '\n' :: rest) =
      stripFrom region line ++ '\n' :: stripFrom next rest := by
  fun_induction stripFrom region line with
  | case1 region => exact stripFrom_newline region
  | case2 cs ih =>
    obtain ⟨next, starts, ih⟩ := ih (by simp_all)
    exact ⟨next, starts, fun rest => by simp [stripFrom, ih]⟩
  | case3 cs ih =>
    obtain ⟨next, starts, ih⟩ := ih (by simp_all)
    exact ⟨next, starts, fun rest => by simp [stripFrom, ih]⟩
  | case4 c cs no_line no_block ih =>
    obtain ⟨next, starts, ih⟩ := ih (by simp_all)
    refine ⟨next, starts, fun rest => ?_⟩
    rw [List.cons_append, stripFrom, ih, List.cons_append]
    -- a slash at the end of the line looks at the newline, which starts no comment
    · cases cs <;> simp_all
    · cases cs <;> simp_all
  | case5 => simp at inside
  | case6 quote c cs not_newline ih =>
    obtain ⟨next, starts, ih⟩ := ih (by simp_all)
    exact ⟨next, starts, fun rest => by simp [stripFrom, not_newline, ih]⟩
  | case7 quote c cs single ih =>
    cases cs with
    | nil =>
      -- the newline ends the literal, also behind a backslash
      refine ⟨.code, .inl rfl, fun rest => ?_⟩
      by_cases escape : c = '\\'
      · simp [stripFrom, escape]
      · simp [stripFrom, escape]
        split <;> simp [stripFrom]
    | cons d cs =>
      obtain ⟨next, starts, ih⟩ := ih (by simp_all)
      refine ⟨next, starts, fun rest => ?_⟩
      rw [List.cons_append, stripFrom, ih, List.cons_append]
      simp_all
  | case8 => simp at inside
  | case9 c cs not_newline ih =>
    obtain ⟨next, starts, ih⟩ := ih (by simp_all)
    exact ⟨next, starts, fun rest => by simp [stripFrom, not_newline, ih]⟩
  | case10 => simp at inside
  | case11 afterStar c cs not_newline closed ih =>
    obtain ⟨next, starts, ih⟩ := ih (by simp_all)
    exact ⟨next, starts, fun rest => by simp [stripFrom, closed, ih]⟩
  | case12 afterStar c cs not_newline open_still ih =>
    obtain ⟨next, starts, ih⟩ := ih (by simp_all)
    exact ⟨next, starts, fun rest => by simp [stripFrom, not_newline, open_still, ih]⟩

theorem mem_of_mem_stripFrom {region : Region} {cs : List Char} {c : Char}
    (h : c ∈ stripFrom region cs) : c = ' ' ∨ c ∈ cs := by
  fun_induction stripFrom region cs
  all_goals simp_all
  all_goals grind

theorem newline_not_mem_stripFrom {line : List Char} (inside : '\n' ∉ line) (region : Region) :
    '\n' ∉ stripFrom region line := by
  intro mem
  rcases mem_of_mem_stripFrom mem with blank | mem
  · cases blank
  · exact inside mem

/-- Lines of a stripped script are what is left of as many lines of the script. -/
theorem exists_lines_of_stripFrom {region : Region} (starts : region.StartsLine) {cs : List Char}
    {pieces : List (List Char)} (inside : ∀ piece ∈ pieces, '\n' ∉ piece) {more : List Char}
    (h : stripFrom region cs = unlines pieces ++ more) : ∃ lines rest next,
      lines.length = pieces.length ∧ (∀ line ∈ lines, '\n' ∉ line) ∧ cs = unlines lines ++ rest ∧
      next.StartsLine ∧
      ∀ x, stripFrom region (unlines lines ++ x) = unlines pieces ++ stripFrom next x := by
  induction pieces generalizing region cs with
  | nil => exact ⟨[], cs, region, rfl, by simp, rfl, starts, fun x => rfl⟩
  | cons piece pieces ih =>
    rw [List.forall_mem_cons] at inside
    have newline : '\n' ∈ cs := by
      have in_stripped : '\n' ∈ stripFrom region cs := by simp [h, unlines]
      rcases mem_of_mem_stripFrom in_stripped with blank | mem
      · cases blank
      · exact mem
    obtain ⟨line, behind, rfl, inside_line⟩ := List.eq_append_cons_of_mem newline
    obtain ⟨next, starts_next, strip⟩ := stripFrom_line region inside_line
    have same : stripFrom region line = piece ∧ stripFrom next behind = unlines pieces ++ more := by
      obtain ⟨takes, drops⟩ := takeWhile_ne (newline_not_mem_stripFrom inside_line region)
        (stripFrom next behind)
      obtain ⟨takes', drops'⟩ := takeWhile_ne inside.1 (unlines pieces ++ more)
      rw [strip, unlines, List.append_assoc, List.cons_append] at h
      rw [h] at takes drops
      exact ⟨takes.symm.trans takes', (List.cons.inj (drops.symm.trans drops')).2⟩
    obtain ⟨lines, rest, last, length, inside_lines, rfl, starts_last, ih⟩ :=
      ih starts_next inside.2 same.2
    refine ⟨line :: lines, rest, last, by simp [length], ?_, by simp [unlines], starts_last, ?_⟩
    · rw [List.forall_mem_cons]
      exact ⟨inside_line, inside_lines⟩
    · intro x
      rw [unlines, List.append_assoc, List.cons_append, strip, ih, same.1]
      simp [unlines]

/-! ## Within a line -/

/-- Read in a region, `front` leaves `kept` and leads back to code, whatever part of `rest` follows.
What follows matters: a slash at the end of `front` could start a comment with another text. -/
def Region.Passes (region : Region) (front kept rest : List Char) : Prop :=
  ∀ x, x <+: rest → stripFrom region (front ++ x) = kept ++ stripFrom .code x

namespace Region.Passes

variable {region : Region} {front front' kept kept' rest out : List Char}

theorem refl (rest : List Char) : Region.code.Passes [] [] rest :=
  fun _ _ => rfl

theorem append (h : region.Passes front kept (front' ++ rest))
    (h' : Region.code.Passes front' kept' rest) :
    region.Passes (front ++ front') (kept ++ kept') rest := by
  intro x part
  rw [List.append_assoc, List.append_assoc, h _ ((List.prefix_append_right_inj front').2 part),
    h' x part]

/-- What is left of the rest. -/
theorem behind (h : region.Passes front kept rest)
    (whole : stripFrom region (front ++ rest) = kept ++ out) : stripFrom .code rest = out := by
  rw [h rest (List.prefix_refl rest)] at whole
  exact List.append_cancel_left whole

theorem eq_stripFrom (h : region.Passes front kept rest) : kept = stripFrom region front := by
  have alone := h [] List.nil_prefix
  rw [List.append_nil, stripFrom, List.append_nil] at alone
  exact alone.symm

end Region.Passes

/-- What a character in code can come from: itself, or a comment that a blank is put for. -/
theorem stripFrom_code_cases {raw out : List Char} {c : Char} (h : stripFrom .code raw = c :: out) :
    (∃ rest, raw = c :: rest ∧ ∀ x, x <+: rest → stripFrom .code (c :: x) =
      c :: stripFrom (if c = '"' ∨ c = '\'' then .quoted c else .code) x) ∨
    c = ' ' ∧ ((∃ rest, raw = '/' :: '/' :: rest ∧ stripFrom .lineComment rest = out) ∨
      ∃ rest, raw = '/' :: '*' :: rest ∧ stripFrom (.blockComment false) rest = out) := by
  generalize code : Region.code = region at h
  fun_cases stripFrom region raw with
  | case1 => cases h
  | case2 cs =>
    obtain ⟨rfl, rfl⟩ := List.cons.inj h
    exact .inr ⟨rfl, .inl ⟨cs, rfl, rfl⟩⟩
  | case3 cs =>
    obtain ⟨rfl, rfl⟩ := List.cons.inj h
    exact .inr ⟨rfl, .inr ⟨cs, rfl, rfl⟩⟩
  | case4 d cs no_line no_block =>
    have keeps (x : List Char) (front : x <+: cs) : stripFrom .code (d :: x) =
        d :: stripFrom (if d = '"' ∨ d = '\'' then .quoted d else .code) x := by
      obtain ⟨more, rfl⟩ := front
      rw [stripFrom]
      · rintro x slash rfl
        exact no_line _ slash rfl
      · rintro x slash rfl
        exact no_block _ slash rfl
    rw [keeps cs (List.prefix_refl cs)] at h
    obtain ⟨rfl, -⟩ := List.cons.inj h
    exact .inl ⟨cs, rfl, keeps⟩
  | _ => cases code

theorem eq_newline_of_lineComment {raw out : List Char} {c : Char}
    (h : stripFrom .lineComment raw = c :: out) : c = '\n' := by
  generalize comment : Region.lineComment = region at h
  fun_induction stripFrom region raw with
  | case1 => cases h
  | case8 cs => exact (List.cons.inj h).1.symm
  | case9 d cs not_newline ih => exact ih rfl h
  | _ => cases comment

/-- A block comment that is left on its line ends there. -/
theorem exists_passes_blockComment {afterStar : Bool} {raw out : List Char} {c : Char}
    (not_newline : c ≠ '\n') (h : stripFrom (.blockComment afterStar) raw = c :: out) :
    ∃ front rest, raw = front ++ rest ∧ '\n' ∉ front ∧
      (Region.blockComment afterStar).Passes front [] rest := by
  generalize block : Region.blockComment afterStar = region at h
  fun_induction stripFrom region raw generalizing afterStar with
  | case1 => cases h
  | case10 => exact absurd (List.cons.inj h).1.symm not_newline
  | case11 star d cs inside closed ih =>
    cases block
    refine ⟨[d], cs, rfl, ?_, fun x _ => ?_⟩
    · simpa using Ne.symm inside
    · simp [stripFrom, closed]
  | case12 star d cs inside opened ih =>
    cases block
    obtain ⟨front, rest, rfl, inside', ih⟩ := ih rfl h
    refine ⟨d :: front, rest, rfl, ?_, fun x part => ?_⟩
    · simp [Ne.symm inside, inside']
    · simp [stripFrom, opened, inside, ih x part]
  | _ => cases block

/-- On a line that goes on in code, a blank is itself or what is left of a block comment. -/
theorem exists_passes_blank {raw out : List Char} {c d : Char} (no_quote : ¬(c = '"' ∨ c = '\''))
    (not_newline : c ≠ '\n') (same_line : d ≠ '\n') (h : stripFrom .code raw = c :: d :: out) :
    ∃ front rest, raw = front ++ rest ∧ '\n' ∉ front ∧ Region.code.Passes front [c] rest := by
  obtain ⟨rest, rfl, keeps⟩ | ⟨rfl, ⟨rest, rfl, comment⟩ | ⟨rest, rfl, comment⟩⟩ :=
    stripFrom_code_cases h
  · rw [if_neg no_quote] at keeps
    exact ⟨[c], rest, rfl, by simpa using Ne.symm not_newline, keeps⟩
  · exact absurd (eq_newline_of_lineComment comment) same_line
  · obtain ⟨front, rest, rfl, inside, passes⟩ := exists_passes_blockComment same_line comment
    refine ⟨'/' :: '*' :: front, rest, rfl, by simpa using inside, fun x part => ?_⟩
    simp [stripFrom, passes x part]

/-- A text without blanks and quotes. -/
def Text.Bare (text : List Char) : Prop :=
  ∀ c ∈ text, isBlank c = false ∧ ¬(c = '"' ∨ c = '\'')

/-- A bare text stands in the script as it is. -/
theorem exists_passes_bare {text raw out : List Char} (bare : Bare text)
    (h : stripFrom .code raw = text ++ out) :
    ∃ rest, raw = text ++ rest ∧ Region.code.Passes text text rest := by
  induction text generalizing raw with
  | nil => exact ⟨raw, rfl, .refl raw⟩
  | cons c text ih =>
    obtain ⟨⟨visible, no_quote⟩, bare⟩ := List.forall_mem_cons.1 bare
    obtain ⟨rest, rfl, keeps⟩ | ⟨rfl, -⟩ := stripFrom_code_cases h
    · rw [if_neg no_quote] at keeps
      have first : Region.code.Passes [c] [c] rest := keeps
      obtain ⟨rest, rfl, passes⟩ := ih bare (first.behind h)
      exact ⟨rest, rfl, first.append passes⟩
    · cases visible

theorem stripFrom_quoted_cons {quote c : Char} (not_escape : c ≠ '\\') (cs : List Char) :
    stripFrom (.quoted quote) (c :: cs) =
      c :: stripFrom (if c = '\n' ∨ c = quote then .code else .quoted quote) cs := by
  rw [stripFrom]
  rintro d cs rfl
  exact absurd rfl not_escape

/-- What closes a literal in the stripped script closes it in the script. -/
theorem exists_passes_quoted {quote : Char} {raw body out : List Char}
    (h : Fragment.closing? quote (stripFrom (.quoted quote) raw) = some (body, out)) :
    ∃ rest, raw = body ++ rest ∧ (Region.quoted quote).Passes body body rest := by
  generalize quoted : Region.quoted quote = region at h
  fun_induction stripFrom region raw generalizing quote body with
  | case1 => simp [Fragment.closing?.eq_def] at h
  | case5 quote' cs => simp [Fragment.closing?.eq_def] at h
  | case6 quote' d cs not_newline ih =>
    cases quoted
    rw [Fragment.closing?.eq_def] at h
    simp only [not_newline, if_false, if_true] at h
    obtain ⟨⟨body, after⟩, found, same⟩ := Option.map_eq_some_iff.1 h
    cases same
    obtain ⟨rest, rfl, passes⟩ := ih rfl found
    exact ⟨rest, rfl, fun x part => by simp [stripFrom, not_newline, passes x part]⟩
  | case7 quote' d cs single ih =>
    cases quoted
    by_cases escape : d = '\\'
    · -- the script ends with this backslash
      obtain rfl : cs = [] := by
        cases cs with
        | nil => rfl
        | cons e cs => exact (single e cs escape rfl).elim
      simp [Fragment.closing?.eq_def, stripFrom, escape] at h
    · by_cases newline : d = '\n'
      · simp [Fragment.closing?.eq_def, newline] at h
      · rw [Fragment.closing?.eq_def] at h
        by_cases closes : d = quote'
        · simp only [newline, escape, if_pos closes, if_false] at h
          cases h
          refine ⟨cs, rfl, fun x _ => ?_⟩
          rw [List.singleton_append, stripFrom_quoted_cons escape, if_pos (.inr closes)]
          rfl
        · simp only [newline, escape, closes, or_self, if_false] at h ih
          obtain ⟨⟨body, after⟩, found, same⟩ := Option.map_eq_some_iff.1 h
          cases same
          obtain ⟨rest, rfl, passes⟩ := ih rfl found
          refine ⟨rest, rfl, fun x part => ?_⟩
          rw [List.cons_append, stripFrom_quoted_cons escape]
          simp [newline, closes, passes x part]
  | _ => cases quoted

/-- A literal stands in the script as it is. -/
theorem exists_passes_literal {q : Quote} {raw body out : List Char}
    (closed : Fragment.closing? q.char body = some (body, []))
    (h : stripFrom .code raw = q.char :: (body ++ out)) :
    ∃ rest, raw = q.char :: body ++ rest ∧
      Region.code.Passes (q.char :: body) (q.char :: body) rest := by
  have is_quote : q.char = '"' ∨ q.char = '\'' := by cases q <;> simp [Quote.char]
  obtain ⟨rest, rfl, keeps⟩ | ⟨blank, -⟩ := stripFrom_code_cases h
  · rw [if_pos is_quote] at keeps
    rw [keeps rest (List.prefix_refl rest)] at h
    have strip := (List.cons.inj h).2
    have found : Fragment.closing? q.char (stripFrom (.quoted q.char) rest) = some (body, out) := by
      rw [strip]
      exact Fragment.closing?_append_right closed out
    obtain ⟨rest, rfl, passes⟩ := exists_passes_quoted found
    refine ⟨rest, rfl, fun x part => ?_⟩
    rw [List.cons_append, keeps _ ((List.prefix_append_right_inj body).2 part), passes x part]
    rfl
  · rw [blank] at is_quote
    simp at is_quote

end TradeScript
