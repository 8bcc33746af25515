import TradeScript.Proofs.Text.Lines
import TradeScript.Proofs.Token.Lexing

/-!
# Lexing line by line

No fragment goes beyond the end of its line, and no two fragments on different lines are joined. A
text is therefore lexed line by line: what stands on a line is lexed as if it were alone
(`ofFragments_scan_line`), and a marker only sets the file and the line of what follows it
(`scan_marker`).

A token stands on its line where its start says (`Token.stands_of_mem_line`).
-/

namespace TradeScript

open Text

/-! ## Markers -/

namespace Marker

theorem read?_write {n : Nat} (small : n < lineLimit) (file : String) :
    read? (write n file) = some (n, file.toList) := by
  have digits : ':' ∉ decimal n := not_mem_decimal rfl n
  obtain ⟨takes, drops⟩ := takeWhile_ne digits file.toList
  rw [write, read?, takes, drops]
  dsimp only
  rw [if_pos rfl, lineNumber?_decimal small]
  rfl

theorem newline_not_mem_write {file : String} (inside : '\n' ∉ file.toList) (n : Nat) :
    '\n' ∉ write n file := by
  have digits : '\n' ∉ decimal n := not_mem_decimal rfl n
  simp [write, sign, digits, inside]

end Marker

namespace Fragment

/-- A marker sets the place of what follows its line. -/
theorem scan_marker {n : Nat} (small : n < lineLimit) {file : String}
    (inside : '\n' ∉ file.toList) {here : Position} (first : here.column = 1) (glued : Bool)
    (rest : List Char) :
    scan here glued (Marker.write n file ++ '\n' :: rest) = scan ⟨file, n, 1⟩ false rest := by
  have clean := Marker.newline_not_mem_write inside n
  have read := Marker.read?_write small file
  unfold Marker.write at clean read ⊢
  rw [List.mem_cons, not_or] at clean
  obtain ⟨takes, drops⟩ := takeWhile_ne clean.2 rest
  rw [List.cons_append, scan, if_neg (Ne.symm clean.1), takes, drops, if_pos first, read]
  simp

/-! ## One line -/

theorem closing?_line (quote : Char) {line : List Char} (inside : '\n' ∉ line)
    (rest : List Char) : closing? quote (line ++ '\n' :: rest) =
      (closing? quote line).map fun (body, behind) => (body, behind ++ '\n' :: rest) := by
  fun_induction closing? quote line with
  | case1 =>
    rw [List.nil_append, closing?.eq_def]
    rfl
  | case2 => simp at inside
  | case3 =>
    rw [List.cons_append, closing?.eq_def]
    simp
  | case4 => simp at inside
  | case5 d ds not_newline _ ih =>
    simp only [List.mem_cons, not_or] at inside
    rw [List.cons_append, List.cons_append, closing?.eq_def]
    simp [not_newline, ih inside.2.2, Function.comp_def]
  | case6 cs not_newline not_backslash =>
    rw [List.cons_append, closing?.eq_def]
    simp [not_newline, not_backslash]
  | case7 c cs not_newline not_backslash not_quote ih =>
    simp only [List.mem_cons, not_or] at inside
    rw [List.cons_append, closing?.eq_def]
    simp [not_newline, not_backslash, not_quote, ih inside.2, Function.comp_def]

theorem cut_line (c : Char) {line : List Char} (inside : '\n' ∉ line) (rest : List Char) :
    cut c (line ++ '\n' :: rest) =
      ((cut c line).1, (cut c line).2.1, (cut c line).2.2 ++ '\n' :: rest) := by
  have word : (line ++ '\n' :: rest).takeWhile isWordChar = line.takeWhile isWordChar ∧
      (line ++ '\n' :: rest).dropWhile isWordChar = line.dropWhile isWordChar ++ '\n' :: rest := by
    induction line with
    | nil => exact ⟨rfl, rfl⟩
    | cons d line ih =>
      simp only [List.mem_cons, not_or] at inside
      obtain ⟨takes, drops⟩ := ih inside.2
      cases first : isWordChar d <;> simp [first, takes, drops]
  obtain ⟨takes, drops⟩ := takeWhile_ne inside rest
  obtain ⟨takes', drops'⟩ := takeWhile_ne_eq_self inside
  unfold cut
  rw [word.1, word.2, closing?_line c inside, takes, drops, takes', drops']
  split
  · rfl
  · split
    · cases closing? c line <;> rfl
    · split <;> rfl

/-- The rest of a line, from `here` on, that is not read as a marker. -/
structure Plain (here : Position) (line : List Char) : Prop where
  inside : '\n' ∉ line
  column : 1 ≤ here.column
  unmarked : here.column = 1 → Marker.read? line = none

section

variable {here : Position} {c : Char} {cs : List Char}

theorem Plain.behind (h : Plain here (c :: cs)) {front rest : List Char} (some : front ≠ [])
    (whole : front ++ rest = c :: cs) : Plain (here.advance front.length) rest := by
  have pos : 1 ≤ front.length := List.length_pos_iff.2 some
  have column : 1 < here.column + front.length := by
    have := h.column
    omega
  refine ⟨fun mem => h.inside ?_, Nat.le_of_lt column, fun first => absurd first (Nat.ne_of_gt column)⟩
  rw [← whole]
  exact List.mem_append_right _ mem

/-- One step of the scanner on a line, whether the text goes on after it or not. -/
theorem Plain.scan_cons (h : Plain here (c :: cs)) (glued : Bool) (tail : List Char)
    (ends : ∀ d ∈ tail.head?, d = '\n') : scan here glued (c :: (cs ++ tail)) =
      if isBlank c then scan (here.advance 1) false (cs ++ tail)
      else ⟨(cut c cs).1, (cut c cs).2.1, here, glued⟩ ::
        scan (here.advance (cut c cs).2.1.length) true ((cut c cs).2.2 ++ tail) := by
  have inside := h.inside
  rw [List.mem_cons, not_or] at inside
  obtain ⟨not_newline, inside⟩ := inside
  have step (behind : List Char) (same : behind.takeWhile (· ≠ '\n') = cs) :
      scan here glued (c :: behind) = if isBlank c then scan (here.advance 1) false behind
        else ⟨(cut c behind).1, (cut c behind).2.1, here, glued⟩ ::
          scan (here.advance (cut c behind).2.1.length) true (cut c behind).2.2 := by
    have no_marker : (if here.column = 1 then Marker.read? (c :: cs) else none) = none := by
      split
      · next first => exact h.unmarked first
      · rfl
    rw [scan, if_neg (Ne.symm not_newline), same, no_marker]
  cases tail with
  | nil =>
    rw [List.append_nil, List.append_nil]
    exact step cs (takeWhile_ne_eq_self inside).1
  | cons d rest =>
    obtain rfl := ends d rfl
    rw [step _ (takeWhile_ne inside rest).1, cut_line c inside]

end

/-- Induction along a line, in the steps of the scanner. -/
theorem Plain.induct {motive : ∀ here line, Plain here line → Prop}
    (nil : ∀ here (h : Plain here []), motive here [] h)
    (skip : ∀ here c cs (h : Plain here (c :: cs)) (_ : isBlank c = true)
      (more : Plain (here.advance 1) cs), motive _ _ more → motive here (c :: cs) h)
    (piece : ∀ here c cs (h : Plain here (c :: cs)) (_ : isBlank c = false)
      (more : Plain (here.advance (cut c cs).2.1.length) (cut c cs).2.2),
      motive _ _ more → motive here (c :: cs) h)
    {here : Position} {line : List Char} (h : Plain here line) : motive here line h := by
  induction length : line.length using Nat.strongRecOn generalizing here line with
  | _ _ ih =>
    subst length
    cases line with
    | nil => exact nil here h
    | cons c cs =>
      cases blank : isBlank c with
      | true =>
        have more : Plain (here.advance 1) cs := h.behind (List.cons_ne_nil c []) rfl
        exact skip here c cs h blank more (ih _ (Nat.lt_succ_self _) more rfl)
      | false =>
        have more := h.behind (cut_text_ne_nil c cs) (cut_append c cs)
        have shorter := Nat.lt_succ_of_le (cut_rest_length_le c cs)
        exact piece here c cs h blank more (ih _ shorter more rfl)

/-- What stands on a line that is no marker is scanned as if it were alone. -/
theorem scan_line {here : Position} {line : List Char} (h : Plain here line) (glued : Bool)
    (rest : List Char) : scan here glued (line ++ '\n' :: rest) =
      scan here glued line ++ scan here.nextLine false rest := by
  induction h using Plain.induct generalizing glued with
  | nil here h =>
    rw [List.nil_append, scan, scan, if_pos rfl]
    rfl
  | skip here c cs h blank more ih =>
    have alone := h.scan_cons glued [] (by simp)
    have within := h.scan_cons glued ('\n' :: rest) (by simp)
    rw [List.append_nil] at alone
    rw [List.cons_append, within, alone, if_pos blank, if_pos blank, ih]
    rfl
  | piece here c cs h visible more ih =>
    have alone := h.scan_cons glued [] (by simp)
    have within := h.scan_cons glued ('\n' :: rest) (by simp)
    rw [List.append_nil, List.append_nil] at alone
    rw [List.cons_append, within, alone, visible, if_neg (by simp), if_neg (by simp), ih]
    rfl

end Fragment

namespace Token

open Fragment

/-! ## Fragments on different lines -/

theorem ofFragments_cons (f : Fragment) (fs : List Fragment) :
    ofFragments (f :: fs) =
      ((joined f fs).1.map fun kind =>
          ⟨kind, String.ofList (f.text ++ (joined f fs).2.1.flatMap Fragment.text), f.start⟩).toList ++
        ofFragments (joined f fs).2.2 := by
  rw [ofFragments]
  cases (joined f fs).1 <;> rfl

theorem joined_append_right (f : Fragment) (fs : List Fragment) {others : List Fragment}
    (loose : ∀ g ∈ others.head?, g.glued = false) :
    joined f (fs ++ others) =
      ((joined f fs).1, (joined f fs).2.1, (joined f fs).2.2 ++ others) := by
  cases kind : f.kind with
  | literal q => simp [joined, kind]
  | stray => simp [joined, kind]
  | unclosed q => simp [joined, kind]
  | mark m =>
    cases fs with
    | cons g fs =>
      simp only [joined, kind, List.cons_append]
      split
      · rfl
      · split
        · split <;> rfl
        · rfl
    | nil =>
      cases others with
      | nil => simp [joined, kind]
      | cons g others => simp [joined, kind, loose g rfl]
  | word =>
    -- a word looks two fragments ahead, of which the others may be the second or the first
    rcases fs with _ | ⟨point, _ | ⟨digits, fs⟩⟩
    · rcases others with _ | ⟨g, _ | ⟨digits, others⟩⟩
      · simp [joined, kind]
      · simp [joined, kind]
      · simp [joined, kind, loose g rfl]
    · cases others with
      | nil => simp [joined, kind]
      | cons g others => simp [joined, kind, loose g rfl]
    · simp only [joined, kind, List.cons_append]
      split <;> rfl

/-- Fragments are not joined with what nothing glues to them. -/
theorem ofFragments_append (fs : List Fragment) {others : List Fragment}
    (loose : ∀ g ∈ others.head?, g.glued = false) :
    ofFragments (fs ++ others) = ofFragments fs ++ ofFragments others := by
  induction fs using ofFragments.induct with
  | case1 => rw [List.nil_append, ofFragments, List.nil_append]
  | case2 f fs parts kind found ih =>
    rw [List.cons_append, ofFragments_cons, ofFragments_cons, joined_append_right f fs loose]
    rw [ih, List.append_assoc]
  | case3 f fs parts found ih =>
    rw [List.cons_append, ofFragments_cons, ofFragments_cons, joined_append_right f fs loose]
    rw [ih, List.append_assoc]

/-- A line that is no marker forms tokens of its own. -/
theorem ofFragments_scan_line {here : Position} {line : List Char} (h : Plain here line)
    (glued : Bool) (rest : List Char) : ofFragments (scan here glued (line ++ '\n' :: rest)) =
      ofFragments (scan here glued line) ++ ofFragments (scan here.nextLine false rest) := by
  rw [scan_line h]
  exact ofFragments_append _ fun g mem => glued_of_mem_head?_scan mem rfl

end Token

/-! ## Where the tokens of a line stand -/

namespace Fragment

/-- Fragments stand one after another in some characters, of which the first is at a place. What is
skipped before a fragment separates it from the one before. -/
inductive Tiles : Position → List Char → List Fragment → Prop
  | nil (here : Position) (cs : List Char) : Tiles here cs []
  | skip {here : Position} {c : Char} {cs : List Char} {fs : List Fragment}
      (loose : ∀ f ∈ fs.head?, f.glued = false) (more : Tiles (here.advance 1) cs fs) :
      Tiles here (c :: cs) fs
  | piece {here : Position} {kind : Kind} {text cs : List Char} {glued : Bool} {fs : List Fragment}
      (more : Tiles (here.advance text.length) cs fs) :
      Tiles here (text ++ cs) (⟨kind, text, here, glued⟩ :: fs)

theorem tiles_scan {here : Position} {line : List Char} (h : Plain here line) (glued : Bool) :
    Tiles here line (scan here glued line) := by
  induction h using Plain.induct generalizing glued with
  | nil here h =>
    rw [scan]
    exact .nil here []
  | skip here c cs h blank more ih =>
    have alone := h.scan_cons glued [] (by simp)
    rw [List.append_nil] at alone
    rw [alone, if_pos blank]
    exact .skip (fun f mem => glued_of_mem_head?_scan mem rfl) (ih false)
  | piece here c cs h visible more ih =>
    have alone := h.scan_cons glued [] (by simp)
    rw [List.append_nil, List.append_nil] at alone
    rw [alone, visible, if_neg (by simp), ← cut_append c cs]
    exact .piece (ih true)

theorem Tiles.split {here : Position} {cs : List Char} {f : Fragment} {fs : List Fragment}
    (h : Tiles here cs (f :: fs)) : ∃ gap rest, cs = gap ++ (f.text ++ rest) ∧
      f.start = here.advance gap.length ∧ Tiles (f.start.advance f.text.length) rest fs ∧
        (f.glued = true → gap = []) := by
  generalize all_eq : f :: fs = all at h
  induction h with
  | nil here cs => cases all_eq
  | @skip here c cs fs' loose more ih =>
    subst all_eq
    obtain ⟨gap, rest, rfl, start, tiles, -⟩ := ih rfl
    refine ⟨c :: gap, rest, rfl, ?_, tiles, fun glued => ?_⟩
    · rw [start, Position.advance_advance, List.length_cons, Nat.add_comm]
    · rw [loose f rfl] at glued
      cases glued
  | @piece here kind text cs glued fs' more ih =>
    cases all_eq
    exact ⟨[], cs, rfl, rfl, more, fun _ => rfl⟩

/-- Fragments that are glued one to another stand without gaps. -/
theorem Tiles.run {here : Position} {cs : List Char} {more fs : List Fragment}
    (h : Tiles here cs (more ++ fs)) (glued : ∀ g ∈ more, g.glued = true) :
    ∃ rest, cs = more.flatMap Fragment.text ++ rest ∧
      Tiles (here.advance (more.flatMap Fragment.text).length) rest fs := by
  induction more generalizing here cs with
  | nil => exact ⟨cs, rfl, h⟩
  | cons g more ih =>
    rw [List.forall_mem_cons] at glued
    obtain ⟨gap, rest, rfl, start, tiles, none_between⟩ := Tiles.split h
    obtain rfl := none_between glued.1
    obtain ⟨rest, rfl, behind⟩ := ih tiles glued.2
    refine ⟨rest, by simp, ?_⟩
    rw [start, Position.advance_advance, Position.advance_advance] at behind
    simpa [Nat.add_assoc] using behind

end Fragment

namespace Token

open Fragment

/-- What a fragment is joined with: nothing, a period and digits, or one more fragment. -/
theorem joined_cases (f : Fragment) (fs : List Fragment) : (joined f fs).2.1 = [] ∨
    (∃ point digits, (joined f fs).2.1 = [point, digits] ∧ f.kind = .word ∧
      point.glued = true ∧ point.kind = .mark .period ∧
      digits.glued = true ∧ digits.isDigits = true) ∨
    ∃ m second, (joined f fs).2.1 = [second] ∧ f.kind = .mark m ∧ second.glued = true ∧
      (second.isDigits = true ∨ ∃ n, second.kind = .mark n) := by
  unfold joined
  split
  · next kind =>
    split
    · next point digits rest =>
      split
      · next decimal =>
        obtain ⟨-, glued, is_point, glued', fraction⟩ := decimal
        exact .inr (.inl ⟨point, digits, rfl, kind, glued, is_point, glued', fraction⟩)
      · exact .inl rfl
    · exact .inl rfl
  · next m kind =>
    split
    · next second rest =>
      split
      · next fraction =>
        exact .inr (.inr ⟨m, second, rfl, kind, fraction.1, .inl fraction.2.2⟩)
      · split
        · next n kind' =>
          by_cases glued : second.glued = true
          · rw [if_pos glued] at kind'
            split
            · exact .inr (.inr ⟨m, second, rfl, kind, glued, .inr ⟨n, kind'⟩⟩)
            · exact .inl rfl
          · rw [if_neg glued] at kind'
            cases kind'
        · exact .inl rfl
    · exact .inl rfl
  all_goals exact .inl rfl

theorem glued_of_mem_joined {f g : Fragment} {fs : List Fragment} (h : g ∈ (joined f fs).2.1) :
    g.glued = true := by
  obtain alone | ⟨point, digits, parts, -, glued, -, glued', -⟩ |
    ⟨m, second, parts, -, glued, -⟩ := joined_cases f fs
  · rw [alone] at h
    cases h
  · rw [parts, List.mem_pair] at h
    rcases h with rfl | rfl
    · exact glued
    · exact glued'
  · rw [parts, List.mem_singleton] at h
    rw [h]
    exact glued

theorem mem_ofFragments_cons {f : Fragment} {fs : List Fragment} {t : Token}
    (h : t ∈ ofFragments (f :: fs)) :
    t.value.toList = f.text ++ (joined f fs).2.1.flatMap Fragment.text ∧ t.start = f.start ∨
      t ∈ ofFragments (joined f fs).2.2 := by
  rw [ofFragments_cons] at h
  rcases List.mem_append.1 h with first | later
  · obtain ⟨kind, -, rfl⟩ := Option.map_eq_some_iff.1 (Option.mem_toList.1 first)
    exact .inl ⟨String.toList_ofList, rfl⟩
  · exact .inr later

/-- The characters of a token stand where its start says. -/
theorem stands_of_tiles {here : Position} {cs : List Char} {fs : List Fragment}
    (h : Tiles here cs fs) : ∀ t ∈ ofFragments fs,
      ∃ gap rest, cs = gap ++ (t.value.toList ++ rest) ∧ t.start = here.advance gap.length := by
  induction length : fs.length using Nat.strongRecOn generalizing here cs fs with
  | _ _ ih =>
    subst length
    cases fs with
    | nil =>
      rw [ofFragments]
      simp
    | cons f fs =>
      obtain ⟨gap, rest, rfl, start, tiles, -⟩ := h.split
      rw [← joined_append f fs] at tiles
      obtain ⟨rest, rfl, behind⟩ := tiles.run fun g mem => glued_of_mem_joined mem
      intro t mem
      rcases mem_ofFragments_cons mem with ⟨value, at_f⟩ | later
      · refine ⟨gap, rest, ?_, at_f.trans start⟩
        rw [value, List.append_assoc]
      · have shorter := Nat.lt_succ_of_le (joined_rest_length_le f fs)
        obtain ⟨gap', rest, rfl, start'⟩ := ih _ shorter behind rfl t later
        refine ⟨gap ++ (f.text ++ ((joined f fs).2.1.flatMap Fragment.text ++ gap')), rest, ?_, ?_⟩
        · simp
        · rw [start', start]
          simp [Position.advance_advance, Nat.add_assoc]

/-- A token of a line stands on it where its start says. -/
theorem stands_of_mem_line {here : Position} {line : List Char} (h : Plain here line)
    {glued : Bool} {t : Token} (mem : t ∈ ofFragments (scan here glued line)) :
    ∃ gap rest, line = gap ++ (t.value.toList ++ rest) ∧ t.start = here.advance gap.length :=
  stands_of_tiles (tiles_scan h glued) t mem

end Token

end TradeScript
