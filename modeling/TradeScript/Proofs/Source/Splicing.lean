import TradeScript.Proofs.Path.Normal
import TradeScript.Proofs.Source.Provenance

/-!
# Splicing inserts scripts at their lines

A script can be expanded with its requirements spliced in or blanked. One run of the first kind is
taken apart into the lines of the script itself and the expansions that are spliced in
(`SplicedLines`). The former are all that is left when the requirements are blanked, and the latter do
not depend on the scripts that were active around them (`ends_expandFile_of_fewer`).

Main statement: `exists_splicedFrom`. The tokens of a spliced expansion are those of the blanked one
with the tokens of each required script put in at the line that requires it, and the same holds of the
directives.
-/

namespace TradeScript

open Text

/-! ## Items put in at lines -/

section

variable {α : Type}

/-- Some items, ordered by lines, with others put in at some lines: what stands on earlier lines comes
before them, and what stands on later lines after them. -/
def insertAt (line : α → Nat) (own : List α) : List (Nat × List α) → List α
  | [] => own
  | (n, items) :: others =>
    own.filter (line · < n) ++ items ++ insertAt line (own.filter (n < line ·)) others

variable {line : α → Nat} {own behind : List α} {parts : List (Nat × List α)} {n : Nat}

theorem insertAt_append (before : ∀ x ∈ own, ∀ part ∈ parts, line x < part.1) :
    insertAt line (own ++ behind) parts = own ++ insertAt line behind parts := by
  cases parts with
  | nil => rfl
  | cons part others =>
    have early : ∀ x ∈ own, line x < part.1 := fun x mem => before x mem part List.mem_cons_self
    have kept : own.filter (line · < part.1) = own :=
      List.filter_eq_self.2 fun x mem => decide_eq_true (early x mem)
    have dropped : own.filter (part.1 < line ·) = [] := by
      refine List.filter_eq_nil_iff.2 fun x mem => ?_
      simpa using Nat.le_of_lt (early x mem)
    rw [insertAt, insertAt, List.filter_append, List.filter_append, kept, dropped, List.nil_append,
      List.append_assoc, List.append_assoc, List.append_assoc]

/-- What stands on the line itself gives way to what is put in there. -/
theorem insertAt_append_cons {items : List α} (here : ∀ x ∈ own, line x = n)
    (later : ∀ x ∈ behind, n < line x) :
    insertAt line (own ++ behind) ((n, items) :: parts) = items ++ insertAt line behind parts := by
  have none_before : (own ++ behind).filter (line · < n) = [] := by
    refine List.filter_eq_nil_iff.2 fun x mem => ?_
    rcases List.mem_append.1 mem with mem | mem
    · simp [here x mem]
    · simpa using Nat.le_of_lt (later x mem)
  have not_here : own.filter (n < line ·) = [] :=
    List.filter_eq_nil_iff.2 fun x mem => by simp [here x mem]
  have all_later : behind.filter (n < line ·) = behind :=
    List.filter_eq_self.2 fun x mem => decide_eq_true (later x mem)
  rw [insertAt, none_before, List.filter_append, not_here, all_later]
  rfl

end

/-! ## Fewer active scripts -/

mutual

/-- An expansion does not change when fewer scripts are active around it. -/
theorem ends_expandFile_of_fewer {files : FileSet} {mode : RequireMode} {active fewer : List Path}
    (sub : ∀ q, fewer.contains q = true → active.contains q = true) {p : Path}
    {journal journal' : Journal} {e : Expansion}
    (h : (expandFile files mode active p).Ends journal e journal') :
    (expandFile files mode fewer p).Ends journal e journal' := by
  obtain ⟨new, text, body, found, step, rfl⟩ := ends_expandFile_iff.1 h
  have still_new : fewer.contains p = false := by
    rw [← Bool.not_eq_true] at new ⊢
    exact fun mem => new (sub p mem)
  have sub' : ∀ q, (p :: fewer).contains q = true → (p :: active).contains q = true := by
    intro q
    rw [List.contains_cons, List.contains_cons, Bool.or_eq_true, Bool.or_eq_true]
    exact Or.imp_right (sub q)
  have step' := ends_expandLines_of_fewer sub' step
  exact ends_expandFile_iff.2 ⟨still_new, text, body, found, step', rfl⟩
  termination_by (files.countOutside active, 0)
  decreasing_by
    exact Prod.Lex.left _ _ (FileSet.countOutside_cons_lt found new)

theorem ends_expandLines_of_fewer {files : FileSet} {mode : RequireMode}
    {active fewer : List Path} (sub : ∀ q, fewer.contains q = true → active.contains q = true)
    {p : Path} {n : Nat} {remaining : List (List Char)} {journal journal' : Journal} {e : Expansion}
    (h : (expandLines files mode active p n remaining).Ends journal e journal') :
    (expandLines files mode fewer p n remaining).Ends journal e journal' := by
  match remaining with
  | [] =>
    rw [expandLines] at h ⊢
    exact h
  | text :: others =>
    obtain ⟨rest, read, step, rfl⟩ | ⟨kind, argument, rest, read, blanked, step, rfl⟩ |
      ⟨argument, inner, middle, rest, read, rfl, step, step', rfl⟩ := expandLines_cons_cases h
    · exact ends_expandLines_code read (ends_expandLines_of_fewer sub step)
    · exact ends_expandLines_blanked read blanked (ends_expandLines_of_fewer sub step)
    · exact ends_expandLines_spliced read (ends_expandFile_of_fewer sub step)
        (ends_expandLines_of_fewer sub step')
  termination_by (files.countOutside active, remaining.length + 1)

end

/-! ## The parts of a spliced expansion -/

/-- The lines of the script at `p` from line `n` on: their expansion with blanked requirements, and
the one in which the given expansions are spliced in for these requirements. -/
inductive SplicedLines (p : Path) : (n : Nat) → List (List Char) →
    (parts : List (Directive × Expansion)) → (elided spliced : Expansion) → Prop
  | nil (n : Nat) : SplicedLines p n [] [] .empty .empty
  | code {n : Nat} {text : List Char} {others : List (List Char)}
      {parts : List (Directive × Expansion)} {e s : Expansion}
      (read : Directive.read text = .ok none) (more : SplicedLines p (n + 1) others parts e s) :
      SplicedLines p n (text :: others) parts (e.consLine (.source text p n))
        (s.consLine (.source text p n))
  | blanked {n : Nat} {text : List Char} {others : List (List Char)} {kind : DirectiveKind}
      {argument : List Char} {parts : List (Directive × Expansion)} {e s : Expansion}
      (read : Directive.read text = .ok (some (kind, argument))) (other : kind ≠ .requirement)
      (more : SplicedLines p (n + 1) others parts e s) :
      SplicedLines p n (text :: others) parts
        ((e.consLine (.source [] p n)).consDirective ⟨kind, String.ofList argument, p, n⟩)
        ((s.consLine (.source [] p n)).consDirective ⟨kind, String.ofList argument, p, n⟩)
  | required {n : Nat} {text : List Char} {others : List (List Char)} {argument : List Char}
      {parts : List (Directive × Expansion)} {inner e s : Expansion}
      (read : Directive.read text = .ok (some (.requirement, argument)))
      (more : SplicedLines p (n + 1) others parts e s) :
      SplicedLines p n (text :: others)
        ((⟨.requirement, String.ofList argument, p, n⟩, inner) :: parts)
        ((e.consLine (.source [] p n)).consDirective ⟨.requirement, String.ofList argument, p, n⟩)
        ((inner.append (s.consLine (.marker (n + 1) p))).consDirective
          ⟨.requirement, String.ofList argument, p, n⟩)

/-- The expansion of the script at `p` can be part of an expansion while others are active. -/
def Expands (files : FileSet) (active : List Path) (p : Path) (e : Expansion) : Prop :=
  ∃ journal journal', (expandFile files .splice active p).Ends journal e journal'

theorem spliced_of_expandLines {files : FileSet} {active : List Path} {p : Path} {n : Nat}
    {remaining : List (List Char)} {journal journal' : Journal} {s : Expansion}
    (h : (expandLines files .splice active p n remaining).Ends journal s journal') :
    ∃ e parts, SplicedLines p n remaining parts e s ∧
      ∀ part ∈ parts, Expands files active (p.resolve part.1.argument) part.2 := by
  induction remaining generalizing n journal s with
  | nil =>
    obtain ⟨rfl, -⟩ := expandLines_nil h
    exact ⟨.empty, [], .nil n, by simp⟩
  | cons text others ih =>
    obtain ⟨rest, read, step, rfl⟩ | ⟨kind, argument, rest, read, blanked, step, rfl⟩ |
      ⟨argument, inner, middle, rest, read, -, step, step', rfl⟩ := expandLines_cons_cases h
    · obtain ⟨e, parts, more, expand⟩ := ih step
      exact ⟨_, parts, .code read more, expand⟩
    · obtain ⟨e, parts, more, expand⟩ := ih step
      exact ⟨_, parts, .blanked read (fun required => blanked ⟨required, rfl⟩) more, expand⟩
    · obtain ⟨e, parts, more, expand⟩ := ih step'
      exact ⟨_, _, .required read more, List.forall_mem_cons.2 ⟨⟨journal, middle, step⟩, expand⟩⟩

namespace SplicedLines

variable {p : Path} {n : Nat} {remaining : List (List Char)} {parts : List (Directive × Expansion)}
  {e s : Expansion}

/-- With blanked requirements nothing but the script itself is read. -/
theorem elided (h : SplicedLines p n remaining parts e s) (files : FileSet) (active : List Path)
    (journal : Journal) : (expandLines files .elide active p n remaining).Ends journal e journal := by
  induction h with
  | nil n =>
    rw [expandLines]
    exact Reading.ends_pure_iff.2 ⟨rfl, rfl⟩
  | code read more ih => exact ends_expandLines_code read ih
  | blanked read other more ih => exact ends_expandLines_blanked read (by simp) ih
  | required read more ih => exact ends_expandLines_blanked read (by simp) ih

/-- The scripts are spliced in for the requirements, one for each. -/
theorem requirements (h : SplicedLines p n remaining parts e s) :
    e.directivesOf .requirement = parts.map Prod.fst := by
  induction h with
  | nil n => rfl
  | code read more ih => exact ih
  | blanked read other more ih =>
    rw [← ih]
    exact List.filter_cons_of_neg (by simpa using other)
  | required read more ih =>
    rw [List.map_cons, ← ih]
    exact List.filter_cons_of_pos (by simp)

/-- The directives are those of the script from the line on. -/
theorem directives_from (h : SplicedLines p n remaining parts e s) :
    ∀ d ∈ e.directives, d.file = p ∧ n ≤ d.line := by
  induction h with
  | nil n => simp [Expansion.empty]
  | code read more ih => exact fun d mem => (ih d mem).imp_right Nat.le_of_succ_le
  | blanked read other more ih =>
    refine List.forall_mem_cons.2 ⟨⟨rfl, Nat.le_refl _⟩, fun d mem => ?_⟩
    exact (ih d mem).imp_right Nat.le_of_succ_le
  | required read more ih =>
    refine List.forall_mem_cons.2 ⟨⟨rfl, Nat.le_refl _⟩, fun d mem => ?_⟩
    exact (ih d mem).imp_right Nat.le_of_succ_le

theorem parts_from (h : SplicedLines p n remaining parts e s) :
    ∀ part ∈ parts, part.1.file = p ∧ n ≤ part.1.line := by
  intro part mem
  have required : part.1 ∈ e.directivesOf .requirement := by
    rw [h.requirements]
    exact List.mem_map_of_mem mem
  exact h.directives_from part.1 (List.mem_filter.1 required).1

/-- Later requirements stand on later lines. -/
theorem pairwise_line (h : SplicedLines p n remaining parts e s) :
    (parts.map fun part => part.1.line).Pairwise (· < ·) := by
  induction h with
  | nil n => exact .nil
  | code read more ih => exact ih
  | blanked read other more ih => exact ih
  | required read more ih =>
    rw [List.map_cons, List.pairwise_cons]
    refine ⟨fun line mem => ?_, ih⟩
    obtain ⟨part, mem_parts, rfl⟩ := List.mem_map.1 mem
    exact (more.parts_from part mem_parts).2

/-- The parts as items that are put in at the lines of their requirements. -/
def itemsAt {α : Type} (items : Directive → Expansion → List α)
    (parts : List (Directive × Expansion)) : List (Nat × List α) :=
  parts.map fun (d, part) => (d.line, items d part)

theorem lt_of_mem_itemsAt {α : Type} {items : Directive → Expansion → List α}
    (h : SplicedLines p (n + 1) remaining parts e s) :
    ∀ part ∈ itemsAt items parts, n < part.1 := by
  intro part mem
  obtain ⟨part, mem_parts, rfl⟩ := List.mem_map.1 mem
  exact (h.parts_from part mem_parts).2

/-- The scripts that are spliced in have no newline in their paths. -/
theorem newline_not_mem_resolve_of_mem (h : SplicedLines p n remaining parts e s)
    (inside : ∀ text ∈ remaining, '\n' ∉ text) (path : '\n' ∉ p.chars) :
    ∀ {part : Directive × Expansion}, part ∈ parts → '\n' ∉ (p.resolve part.1.argument).chars := by
  induction h with
  | nil n => simp
  | code read more ih => exact ih (List.forall_mem_cons.1 inside).2
  | blanked read other more ih => exact ih (List.forall_mem_cons.1 inside).2
  | required read more ih =>
    rw [List.forall_mem_cons] at inside
    intro part mem
    rcases List.mem_cons.1 mem with rfl | mem
    · exact newline_not_mem_resolve path inside.1 read
    · exact ih inside.2 mem

/-- Each requirement stands directly before the directives of the script spliced in for it. -/
theorem directives_eq (h : SplicedLines p n remaining parts e s) :
    s.directives = insertAt Directive.line e.directives
      (itemsAt (fun d inner => d :: inner.directives) parts) := by
  induction h with
  | nil n => rfl
  | code read more ih => exact ih
  | @blanked n text others kind argument parts e s read other more ih =>
    have first : ∀ x ∈ [Directive.mk kind (String.ofList argument) p n], ∀ part ∈ itemsAt
        (fun d inner => d :: inner.directives) parts, x.line < part.1 := by
      simpa using more.lt_of_mem_itemsAt
    calc _ = [Directive.mk kind (String.ofList argument) p n] ++ s.directives := rfl
      _ = _ := by rw [ih, ← insertAt_append first]; rfl
  | @required n text others argument parts inner e s read more ih =>
    have here : ∀ x ∈ [Directive.mk .requirement (String.ofList argument) p n], x.line = n := by
      simp
    have later : ∀ x ∈ e.directives, n < x.line := fun x mem => (more.directives_from x mem).2
    calc _ = (_ :: inner.directives) ++ s.directives := rfl
      _ = _ := by rw [ih, ← insertAt_append_cons here later]; rfl

/-- The code of the script is plain at its place. -/
theorem plain_of_read {text : List Char} (inside : '\n' ∉ text)
    {result : Option (DirectiveKind × List Char)} (read : Directive.read text = .ok result) :
    Fragment.Plain ⟨p.text, n, 1⟩ text :=
  ⟨inside, Nat.le_refl 1, fun _ => Directive.read?_eq_none_of_read read⟩

theorem tokens_blank (p : Path) (n : Nat) : (ExpandedLine.source [] p n).tokens = [] := by
  rw [ExpandedLine.tokens, Fragment.scan, Token.ofFragments]

theorem tokens_from (h : SplicedLines p n remaining parts e s)
    (inside : ∀ text ∈ remaining, '\n' ∉ text) :
    ∀ t ∈ e.lines.flatMap ExpandedLine.tokens, n ≤ t.start.line := by
  induction h with
  | nil n => simp [Expansion.empty]
  | code read more ih =>
    rw [List.forall_mem_cons] at inside
    intro t mem
    rw [Expansion.consLine, List.flatMap_cons, List.mem_append] at mem
    rcases mem with mem | mem
    · exact Nat.le_of_eq
        (ExpandedLine.start_of_mem_tokens (plain_of_read inside.1 read) mem).2.symm
    · exact Nat.le_of_succ_le (ih inside.2 t mem)
  | blanked read other more ih =>
    intro t mem
    rw [Expansion.consDirective, Expansion.consLine, List.flatMap_cons, tokens_blank] at mem
    exact Nat.le_of_succ_le (ih (List.forall_mem_cons.1 inside).2 t mem)
  | required read more ih =>
    intro t mem
    rw [Expansion.consDirective, Expansion.consLine, List.flatMap_cons, tokens_blank] at mem
    exact Nat.le_of_succ_le (ih (List.forall_mem_cons.1 inside).2 t mem)

/-- The tokens of the scripts spliced in stand at the lines of their requirements. -/
theorem tokens_eq (h : SplicedLines p n remaining parts e s)
    (inside : ∀ text ∈ remaining, '\n' ∉ text) :
    s.lines.flatMap ExpandedLine.tokens =
      insertAt (fun t => t.start.line) (e.lines.flatMap ExpandedLine.tokens)
        (itemsAt (fun _ inner => inner.lines.flatMap ExpandedLine.tokens) parts) := by
  induction h with
  | nil n => rfl
  | @code n text others parts e s read more ih =>
    rw [List.forall_mem_cons] at inside
    have first : ∀ t ∈ (ExpandedLine.source text p n).tokens, ∀ part ∈ itemsAt
        (fun _ inner => inner.lines.flatMap ExpandedLine.tokens) parts,
        t.start.line < part.1 := by
      intro t mem part mem'
      rw [(ExpandedLine.start_of_mem_tokens (plain_of_read inside.1 read) mem).2]
      exact more.lt_of_mem_itemsAt part mem'
    rw [Expansion.consLine, Expansion.consLine, List.flatMap_cons, List.flatMap_cons,
      insertAt_append first, ih inside.2]
  | blanked read other more ih =>
    rw [Expansion.consDirective, Expansion.consLine, Expansion.consDirective, Expansion.consLine,
      List.flatMap_cons, List.flatMap_cons, tokens_blank, List.nil_append, List.nil_append]
    exact ih (List.forall_mem_cons.1 inside).2
  | @required n text others argument parts inner e s read more ih =>
    have inside' := (List.forall_mem_cons.1 inside).2
    have later := more.tokens_from inside'
    have none_here : ∀ t ∈ ([] : List Token), t.start.line = n := by simp
    have put_in := @insertAt_append_cons _ (fun t : Token => t.start.line) [] _
      (itemsAt (fun _ inner => inner.lines.flatMap ExpandedLine.tokens) parts) n
      (inner.lines.flatMap ExpandedLine.tokens) none_here later
    calc _ = inner.lines.flatMap ExpandedLine.tokens ++ s.lines.flatMap ExpandedLine.tokens := by
          simp [Expansion.consDirective, Expansion.append, Expansion.consLine, ExpandedLine.tokens]
      _ = _ := by
          rw [ih inside', ← put_in, Expansion.consDirective, Expansion.consLine, List.flatMap_cons,
            tokens_blank]
          rfl

end SplicedLines

/-! ## SplicedLines and blanked expansions of a script -/

variable {files : FileSet} {p : Path} {s : Expansion}

theorem start_of_expands {active : List Path} {q : Path} (normal : q.IsNormal) {e : Expansion}
    (h : Expands files active q e) : (expand files .splice q).start.1 = .ok e := by
  obtain ⟨journal, journal', ends⟩ := h
  have alone : (expand files .splice q).Ends journal e journal' := by
    rw [expand, normal.normalize_eq]
    exact ends_expandFile_of_fewer (by simp) ends
  exact (tame_expand files .splice q).start_eq_ok alone

/-- A spliced expansion `s` of the script at `p` is put together from its expansion `e` with blanked
requirements and from the spliced expansions of the required scripts, each given with its
requirement. -/
structure SplicedFrom (files : FileSet) (p : Path) (s e : Expansion)
    (parts : List (Directive × Expansion)) : Prop where
  elided : (expand files .elide p).start.1 = .ok e
  requirements : parts.map Prod.fst = e.directivesOf .requirement
  ordered : (parts.map fun part => part.1.line).Pairwise (· < ·)
  targets : ∀ part ∈ parts, part.1.file = p.normalize ∧
    (expand files .splice (part.1.file.resolve part.1.argument)).start.1 = .ok part.2
  /-- The tokens of each part stand at the line of its requirement. -/
  tokens : ∀ file, Token.ofText file s.text =
    insertAt (fun t => t.start.line) (Token.ofText file e.text)
      (parts.map fun part => (part.1.line, Token.ofText file part.2.text))
  /-- Each requirement stands directly before the directives of its part. -/
  directives : s.directives = insertAt Directive.line e.directives
    (parts.map fun part => (part.1.line, part.1 :: part.2.directives))

/-- Every spliced expansion is the one with blanked requirements into which the spliced expansions of
the required scripts are put. -/
theorem exists_splicedFrom (bounded : files.Bounded) (inside : '\n' ∉ p.text.toList)
    (h : (expand files .splice p).start.1 = .ok s) : ∃ e parts, SplicedFrom files p s e parts := by
  have ends : (expand files .splice p).Ends .empty s (expand files .splice p).start.2 :=
    Prod.ext h rfl
  obtain ⟨text, body, found, step, rfl⟩ := ends_expand_iff.1 ends
  obtain ⟨own, parts, spliced, expands⟩ := spliced_of_expandLines step
  have clean : ∀ line ∈ lines (stripComments text.toList), '\n' ∉ line :=
    fun line mem => newline_not_mem_of_mem_lines mem
  have elided : (expand files .elide p).start.1 = .ok (own.consLine (.marker 1 p.normalize)) := by
    refine congrArg Prod.fst (ends_expand_iff.2 ⟨text, own, found, spliced.elided files _ _, rfl⟩)
  have starts : ∀ part ∈ parts, part.1.file = p.normalize ∧
      (expand files .splice (part.1.file.resolve part.1.argument)).start.1 = .ok part.2 := by
    intro part mem
    have file := (spliced.parts_from part mem).1
    rw [file]
    exact ⟨rfl, start_of_expands (Path.isNormal_resolve _ _) (expands part mem)⟩
  refine ⟨_, parts, elided, spliced.requirements.symm, spliced.pairwise_line, starts, ?_,
    spliced.directives_eq⟩
  intro file
  have of_parts : ∀ part ∈ parts,
      Token.ofText file part.2.text = part.2.lines.flatMap ExpandedLine.tokens := by
    intro part mem
    have path := spliced.newline_not_mem_resolve_of_mem clean (newline_not_mem_normalize inside) mem
    have started := (starts part mem).2
    rw [(starts part mem).1] at started
    exact (traced_of_expand bounded path started).2.ofText file
  rw [(traced_of_expand bounded inside h).2.ofText, (traced_of_expand bounded inside elided).2.ofText]
  have same : (parts.map fun part => (part.1.line, Token.ofText file part.2.text)) =
      parts.map fun part => (part.1.line, part.2.lines.flatMap ExpandedLine.tokens) :=
    List.map_congr_left fun part mem => by rw [of_parts part mem]
  rw [same]
  exact spliced.tokens_eq clean

/-- The script that is spliced into the other one is put in at its first line. -/
theorem exists_splicedFrom_splicedPair :
    (expand splicedPair .splice ⟨"a.dts"⟩).start.1 = .ok splicedPairExpansion ∧
      ∃ e parts, SplicedFrom splicedPair ⟨"a.dts"⟩ splicedPairExpansion e parts := by
  have expanded : (expand splicedPair .splice ⟨"a.dts"⟩).start.1 = .ok splicedPairExpansion :=
    congrArg Prod.fst ends_expand_splicedPair
  exact ⟨expanded, exists_splicedFrom bounded_splicedPair (by decide) expanded⟩

end TradeScript
