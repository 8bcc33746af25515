import TradeScript.Proofs.Requirement.Resolution
import TradeScript.Proofs.Source.Splicing

/-!
# Scripts that splice one another in a circle

With its requirements spliced in, the expansion of a script calls itself for each script that is
required (`Splicing.Calls`), and a shared script is expanded again wherever it is required. A script
that makes calls was not active before, so that calls are not nested deeper than there are files
(`Splicing.length_le_of_nested`).

An expansion that fails does so at a call that it leads to (`Splicing.exists_fault_of_fails`). What
holds of every such call (`Splicing.Underway`) leaves a circle as the only reason, if all scripts can
be expanded with blanked requirements. An expansion that succeeds goes along all requirements, with
more and more scripts active, so that no script leads back to itself (`Splicing.not_transGen_self`).

Main statement: `fails_expand_iff_circular`.
-/

namespace TradeScript

open Relation Text

/-- A script requires another one directly, as its own directives say. -/
def Splices (files : FileSet) (p q : Path) : Prop :=
  ∃ e, (expand files .elide p).start.1 = .ok e ∧
    ∃ d ∈ e.directivesOf .requirement, d.file.resolve d.argument = q

theorem Splices.isNormal {files : FileSet} {p q : Path} (h : Splices files p q) : q.IsNormal := by
  obtain ⟨e, -, d, -, rfl⟩ := h
  exact Path.isNormal_resolve _ _

/-! ## The lines of one script -/

section

variable {files : FileSet} {active : List Path} {p : Path} {journal journal' : Journal}

/-- All lines are read when requirements are blanked, and those that require a script give its
requirement. -/
theorem read_of_expandLines {n : Nat} {remaining : List (List Char)} {e : Expansion}
    (h : (expandLines files .elide active p n remaining).Ends journal e journal') :
    ∀ line ∈ remaining, ∃ found, Directive.read line = .ok found ∧
      ∀ argument, found = some (.requirement, argument) →
        ∃ d ∈ e.directivesOf .requirement, d.file = p ∧ d.argument = String.ofList argument := by
  induction remaining generalizing n journal e with
  | nil => simp
  | cons text others ih =>
    rw [List.forall_mem_cons]
    obtain ⟨rest, read, step, rfl⟩ | ⟨kind, argument, rest, read, -, step, rfl⟩ |
      ⟨-, -, -, -, -, ⟨⟩, -⟩ := expandLines_cons_cases h
    · exact ⟨⟨none, read, by simp⟩, fun line mem => ih step line mem⟩
    · refine ⟨⟨_, read, ?_⟩, fun line mem => ?_⟩
      · rintro argument ⟨⟩
        exact ⟨⟨.requirement, String.ofList argument, p, n⟩,
          List.mem_filter.2 ⟨List.mem_cons_self, by simp⟩, rfl, rfl⟩
      · obtain ⟨found, read', required⟩ := ih step line mem
        refine ⟨found, read', fun argument same => ?_⟩
        obtain ⟨d, mem_d, own⟩ := required argument same
        obtain ⟨before, kind_eq⟩ := List.mem_filter.1 mem_d
        exact ⟨d, List.mem_filter.2 ⟨List.mem_cons_of_mem _ before, kind_eq⟩, own⟩

/-- What the lines of a script say that can be expanded with blanked requirements. -/
theorem read_of_expand {e : Expansion} (normal : p.IsNormal)
    (h : (expand files .elide p).start.1 = .ok e) : ∃ text, files.text? p = some text ∧
      ∀ line ∈ lines (stripComments text.toList), ∃ found, Directive.read line = .ok found ∧
        ∀ argument, found = some (.requirement, argument) →
          Splices files p (p.resolve (String.ofList argument)) := by
  obtain ⟨text, body, found, step, rfl⟩ := ends_expand_iff.1 (Reading.start_eq_ok_iff.1 h)
  rw [normal.normalize_eq] at found step
  refine ⟨text, found, fun line mem => ?_⟩
  obtain ⟨result, read, required⟩ := read_of_expandLines step line mem
  refine ⟨result, read, fun argument same => ?_⟩
  obtain ⟨d, mem_d, rfl, named⟩ := required argument same
  exact ⟨_, h, d, mem_d, by rw [named]⟩

end

namespace Splicing

variable {files : FileSet} {root p q : Path} {active : List Path} {failure : Failure}
  {journal journal' : Journal}

/-! ## Nested calls -/

/-- A call of the expansion: the script that is expanded, and those that are active around it, the
innermost first. -/
structure Call where
  active : List Path
  script : Path

/-- The calls that a call makes itself: one for each line that requires a script. -/
inductive Calls (files : FileSet) : Call → Call → Prop
  | intro {active : List Path} {p : Path} {text : String} {line argument : List Char}
      (new : active.contains p = false) (found : files.text? p = some text)
      (mem : line ∈ lines (stripComments text.toList))
      (read : Directive.read line = .ok (some (.requirement, argument))) :
      Calls files ⟨active, p⟩ ⟨p :: active, p.resolve (String.ofList argument)⟩

/-- What a call fails with by itself. -/
inductive Fault (files : FileSet) : Call → Failure → Prop
  | again {active : List Path} {p : Path} (seen : active.contains p = true) :
      Fault files ⟨active, p⟩ (.cycle (requireCycle active p))
  | missing {active : List Path} {p : Path} (absent : files.text? p = none) :
      Fault files ⟨active, p⟩ (.unreadable p (files.absence p))
  | line {active : List Path} {p : Path} {text : String} {line : List Char} {fault : DirectiveFault}
      (found : files.text? p = some text) (mem : line ∈ lines (stripComments text.toList))
      (read : Directive.read line = .error fault) (n : Nat) :
      Fault files ⟨active, p⟩ (fault.failure p n)

variable {c d : Call}

theorem Calls.countOutside_lt (h : Calls files c d) :
    files.countOutside d.active < files.countOutside c.active := by
  cases h with
  | intro new found mem read => exact FileSet.countOutside_cons_lt found new

/-- Calls are not nested deeper than there are files that are not active. -/
theorem length_le_of_nested {calls : List Call} (nested : (c :: calls).IsChain (Calls files)) :
    calls.length ≤ files.countOutside c.active := by
  induction calls generalizing c with
  | nil => exact Nat.zero_le _
  | cons d calls ih =>
    obtain ⟨call, nested⟩ := List.isChain_cons_cons.1 nested
    have inner := ih nested
    have fewer := call.countOutside_lt
    rw [List.length_cons]
    omega

/-! ## Calls that fail -/

theorem fails_expandFile_cases {mode : RequireMode}
    (h : (expandFile files mode active p).Fails journal failure journal') :
    Fault files ⟨active, p⟩ failure ∨
      active.contains p = false ∧ ∃ text, files.text? p = some text ∧
        (expandLines files mode (p :: active) p 1 (lines (stripComments text.toList))).Fails
          { journal with reads := journal.reads ++ [p] } failure journal' := by
  rw [expandFile] at h
  cases known : active.contains p with
  | true =>
    rw [dif_pos known] at h
    obtain ⟨rfl, -⟩ := Reading.fails_fail_iff.1 h
    exact .inl (.again known)
  | false =>
    rw [dif_neg (by simp [known])] at h
    rcases Reading.fails_bind_iff.1 h with h | ⟨⟨⟩, middle, asked, h⟩
    · exact absurd h Reading.not_fails_ask
    · cases asked
      split at h
      · next absent =>
        obtain ⟨rfl, -⟩ := Reading.fails_fail_iff.1 h
        exact .inl (.missing absent)
      · next text found =>
        exact .inr ⟨rfl, text, found, Reading.fails_bind_pure_iff.1 h⟩

/-- A line that makes an expansion fail: it cannot be read, or the script fails that it requires. -/
inductive LineFails (files : FileSet) (active : List Path) (p : Path) :
    List Char → Failure → Prop
  | faulty {line : List Char} {fault : DirectiveFault} (read : Directive.read line = .error fault)
      (n : Nat) : LineFails files active p line (fault.failure p n)
  | required {line argument : List Char} {failure : Failure} {journal journal' : Journal}
      (read : Directive.read line = .ok (some (.requirement, argument)))
      (fails : (expandFile files .splice active (p.resolve (String.ofList argument))).Fails journal
        failure journal') : LineFails files active p line failure

theorem exists_lineFails_of_fails {n : Nat} {remaining : List (List Char)}
    (h : (expandLines files .splice active p n remaining).Fails journal failure journal') :
    ∃ line ∈ remaining, LineFails files active p line failure := by
  induction remaining generalizing n journal with
  | nil =>
    rw [expandLines] at h
    exact absurd h Reading.not_fails_pure
  | cons text others ih =>
    have later {m : Nat} {journal : Journal}
        (h : (expandLines files .splice active p m others).Fails journal failure journal') :
        ∃ line ∈ text :: others, LineFails files active p line failure := by
      obtain ⟨line, mem, fails⟩ := ih h
      exact ⟨line, List.mem_cons_of_mem text mem, fails⟩
    rw [expandLines] at h
    rcases Reading.fails_bind_iff.1 h with faulty | ⟨result, middle, step, h⟩
    · have failed := (Reading.fails_ofExcept_iff.1 faulty).1
      obtain ⟨fault, read, rfl⟩ := error_of_readDirective failed
      exact ⟨text, List.mem_cons_self, .faulty read n⟩
    · obtain ⟨read, rfl⟩ := Reading.ends_ofExcept_iff.1 step
      obtain ⟨found, at_line, rfl⟩ := readDirective_eq_ok read
      cases found with
      | none => exact later (Reading.fails_bind_pure_iff.1 h)
      | some found =>
        obtain ⟨kind, argument⟩ := found
        dsimp only [Option.map_some] at h
        split at h
        · next required =>
          obtain ⟨rfl, -⟩ := required
          rcases Reading.fails_bind_iff.1 h with fails | ⟨inner, middle, -, h⟩
          · exact ⟨text, List.mem_cons_self, .required at_line fails⟩
          · exact later (Reading.fails_bind_pure_iff.1 h)
        · exact later (Reading.fails_bind_pure_iff.1 h)

/-- An expansion that fails does so because of a call that it leads to. -/
theorem exists_fault_of_fails {active : List Path} {p : Path} {journal journal' : Journal}
    (h : (expandFile files .splice active p).Fails journal failure journal') :
    ∃ d, ReflTransGen (Calls files) ⟨active, p⟩ d ∧ Fault files d failure := by
  rcases fails_expandFile_cases h with fault | ⟨new, text, found, fails⟩
  · exact ⟨_, .refl, fault⟩
  · obtain ⟨line, mem, ⟨read, n⟩ | ⟨read, fails⟩⟩ := exists_lineFails_of_fails fails
    · exact ⟨_, .refl, .line found mem read n⟩
    · obtain ⟨d, reached, fault⟩ := exists_fault_of_fails fails
      exact ⟨d, .head (.intro new found mem read) reached, fault⟩
  termination_by files.countOutside active
  decreasing_by exact FileSet.countOutside_cons_lt found new

/-! ## What holds of every call -/

/-- What holds of a call that the expansion of the script at `root` leads to: its script is required by
the innermost active one, this one by the next, and so on, and `root` leads to all of them. -/
structure Underway (files : FileSet) (root : Path) (c : Call) : Prop where
  normal : ∀ q ∈ c.script :: c.active, q.IsNormal
  distinct : c.active.Nodup
  linked : (c.script :: c.active).IsChain fun q p => Splices files p q
  reached : ReflTransGen (Splices files) root c.script

/-- All scripts that a script leads to can be expanded with blanked requirements. -/
def Readable (files : FileSet) (root : Path) : Prop :=
  ∀ p, ReflTransGen (Splices files) root p → ∃ e, (expand files .elide p).start.1 = .ok e

namespace Underway

theorem start (normal : root.IsNormal) : Underway files root ⟨[], root⟩ where
  normal := by simpa using normal
  distinct := List.nodup_nil
  linked := .singleton root
  reached := .refl

theorem step (h : Underway files root c) (readable : Readable files root) (call : Calls files c d) :
    Underway files root d := by
  cases call with
  | @intro active p text line argument new found mem read =>
    obtain ⟨p_normal, normal⟩ := List.forall_mem_cons.1 h.normal
    obtain ⟨e, expanded⟩ := readable p h.reached
    obtain ⟨text', found', all_read⟩ := read_of_expand p_normal expanded
    obtain rfl : text = text' := Option.some.inj (found.symm.trans found')
    obtain ⟨result, read', required⟩ := all_read line mem
    obtain rfl : some (.requirement, argument) = result := Except.ok.inj (read.symm.trans read')
    have splices := required argument rfl
    have absent : p ∉ active := fun mem =>
      Bool.false_ne_true (new.symm.trans ((p_normal.contains_iff_mem normal).2 mem))
    exact ⟨List.forall_mem_cons.2 ⟨splices.isNormal, h.normal⟩,
      List.nodup_cons.2 ⟨absent, h.distinct⟩, h.linked.cons_cons splices, h.reached.tail splices⟩

theorem of_calls (h : Underway files root c) (readable : Readable files root)
    (calls : ReflTransGen (Calls files) c d) : Underway files root d := by
  induction calls with
  | refl => exact h
  | tail _ call ih => exact ih.step readable call

/-- A call of scripts that can all be expanded with blanked requirements fails with a circle only. -/
theorem cycle_of_fault (h : Underway files root c) (readable : Readable files root)
    (fault : Fault files c failure) : ∃ chain, failure = .cycle chain ∧
      IsCircle (Splices files) chain ∧ ∀ p ∈ chain.head?, ReflTransGen (Splices files) root p := by
  obtain ⟨p_normal, normal⟩ := List.forall_mem_cons.1 h.normal
  obtain ⟨e, expanded⟩ := readable c.script h.reached
  obtain ⟨text, found, all_read⟩ := read_of_expand p_normal expanded
  cases fault with
  | again seen =>
    have mem := (p_normal.contains_iff_mem normal).1 seen
    refine ⟨_, rfl, isCircle_requireCycle p_normal normal h.distinct h.linked mem, ?_⟩
    rintro p ⟨⟩
    exact h.reached
  | missing absent => cases found.symm.trans absent
  | line found' mem read n =>
    cases found.symm.trans found'
    obtain ⟨result, read', -⟩ := all_read _ mem
    cases read.symm.trans read'

end Underway

/-! ## Expansions that succeed -/

/-- A script that is required is expanded while the one that requires it is active. -/
theorem expands_of_splices {s : Expansion} (normal : p.IsNormal) (h : Expands files active p s)
    (splices : Splices files p q) : ∃ inner, Expands files (p :: active) q inner := by
  obtain ⟨journal, journal', ends⟩ := h
  obtain ⟨new, text, body, found, step, rfl⟩ := ends_expandFile_iff.1 ends
  obtain ⟨own, parts, spliced, expands⟩ := spliced_of_expandLines step
  obtain ⟨e, expanded, d, mem, rfl⟩ := splices
  have elided : (expand files .elide p).start.1 = .ok (own.consLine (.marker 1 p)) := by
    rw [expand, normal.normalize_eq]
    exact congrArg Prod.fst
      (ends_expandFile_iff.2 ⟨rfl, text, own, found, spliced.elided files _ _, rfl⟩)
  obtain rfl : own.consLine (.marker 1 p) = e := Except.ok.inj (elided.symm.trans expanded)
  have among : d ∈ parts.map Prod.fst := spliced.requirements ▸ mem
  obtain ⟨part, mem_parts, rfl⟩ := List.mem_map.1 among
  rw [(spliced.parts_from part mem_parts).1]
  exact ⟨part.2, expands part mem_parts⟩

/-- Whatever a script leads to is expanded while more scripts are active. -/
theorem exists_expands_of_reached {s : Expansion} (normal : p.IsNormal)
    (h : Expands files active p s) (reached : ReflTransGen (Splices files) p q) :
    q.IsNormal ∧ ∃ around inner, active ⊆ around ∧ Expands files around q inner := by
  induction reached with
  | refl => exact ⟨normal, active, s, List.Subset.refl _, h⟩
  | @tail q r _ splices ih =>
    obtain ⟨q_normal, around, inner, sub, expands⟩ := ih
    obtain ⟨inner', expands'⟩ := expands_of_splices q_normal expands splices
    exact ⟨splices.isNormal, q :: around, inner', List.subset_cons_of_subset q sub, expands'⟩

/-- No script leads back to itself that is part of an expansion. -/
theorem not_transGen_self {s : Expansion} (normal : p.IsNormal) (h : Expands files active p s) :
    ¬ TransGen (Splices files) p p := by
  intro circle
  obtain ⟨q, first, back⟩ := TransGen.head'_iff.1 circle
  obtain ⟨s', inside⟩ := expands_of_splices normal h first
  obtain ⟨-, around, inner, sub, journal, journal', again⟩ :=
    exists_expands_of_reached first.isNormal inside back
  have new := (ends_expandFile_iff.1 again).1
  have seen : around.contains p = true :=
    List.contains_iff_exists_mem_beq.2 ⟨p, sub List.mem_cons_self, BEq.rfl⟩
  exact Bool.false_ne_true (new.symm.trans seen)

end Splicing

open Splicing

/-- Splicing ends, since its calls are not nested deeper than there are files. If all scripts that the
root leads to can be expanded with blanked requirements, then splicing fails exactly if one of them
leads back to itself, and it fails with a circle of them. -/
theorem fails_expand_iff_circular (files : FileSet) (root : Path)
    (readable : Readable files root.normalize) :
    (∀ calls, ((⟨[], root.normalize⟩ : Call) :: calls).IsChain (Calls files) →
      calls.length ≤ files.files.length) ∧
    ((∃ failure, (expand files .splice root).start.1 = .error failure) ↔
      ∃ p, ReflTransGen (Splices files) root.normalize p ∧ TransGen (Splices files) p p) ∧
    ∀ failure, (expand files .splice root).start.1 = .error failure →
      ∃ chain, failure = .cycle chain ∧ IsCircle (Splices files) chain ∧
        ∀ p ∈ chain.head?, ReflTransGen (Splices files) root.normalize p := by
  have normal := Path.isNormal_normalize root
  have circular (failure : Failure) (failed : (expand files .splice root).start.1 = .error failure) :
      ∃ chain, failure = .cycle chain ∧ IsCircle (Splices files) chain ∧
        ∀ p ∈ chain.head?, ReflTransGen (Splices files) root.normalize p := by
    obtain ⟨d, calls, fault⟩ := exists_fault_of_fails (Reading.start_eq_error_iff.1 failed)
    exact ((Underway.start normal).of_calls readable calls).cycle_of_fault readable fault
  refine ⟨fun calls nested => ?_, ⟨?_, ?_⟩, circular⟩
  · exact (length_le_of_nested nested).trans List.countP_le_length
  · rintro ⟨failure, failed⟩
    obtain ⟨chain, -, circle, reached⟩ := circular failure failed
    obtain ⟨p, first, back⟩ := circle.exists_transGen_self
    exact ⟨p, reached p first, back⟩
  · rintro ⟨p, reached, circle⟩
    rcases outcome : (expand files .splice root).start.1 with failure | s
    · exact ⟨failure, rfl⟩
    · have expands : Expands files [] root.normalize s :=
        ⟨_, _, Reading.start_eq_ok_iff.1 outcome⟩
      obtain ⟨p_normal, around, inner, -, expands_p⟩ :=
        exists_expands_of_reached normal expands reached
      exact absurd circle (not_transGen_self p_normal expands_p)

/-! ### Two scripts that splice each other -/

open Requirement

/-- A script with one line requires one script. -/
theorem splices_iff_of_line {files : FileSet} {p q : Path} {text : String} {line argument : List Char}
    (found : files.text? p.normalize = some text) (one : lines (stripComments text.toList) = [line])
    (read : Directive.read line = .ok (some (.requirement, argument))) :
    Splices files p q ↔ p.normalize.resolve (String.ofList argument) = q := by
  have expanded := expand_elide_of_line found one read
  constructor
  · rintro ⟨e, expanded', d, mem, rfl⟩
    cases expanded.symm.trans expanded'
    rw [List.mem_singleton.1 mem]
  · rintro rfl
    exact ⟨_, expanded, _, List.mem_singleton_self _, rfl⟩

theorem splices_mutualPair_first (q : Path) :
    Splices mutualPair ⟨"a.dti"⟩ q ↔ ⟨"b.dti"⟩ = q := by
  have one : lines (stripComments "#require \"b.dti\"\n".toList) =
      ["#require \"b.dti\"".toList] := by decide
  have read : Directive.read "#require \"b.dti\"".toList =
      .ok (some (.requirement, "b.dti".toList)) := rfl
  have target : (Path.mk "a.dti").normalize.resolve (String.ofList "b.dti".toList) = ⟨"b.dti"⟩ := rfl
  have splices : Splices mutualPair ⟨"a.dti"⟩ q ↔ _ := splices_iff_of_line rfl one read
  rwa [target] at splices

theorem splices_mutualPair_second (q : Path) :
    Splices mutualPair ⟨"b.dti"⟩ q ↔ ⟨"a.dti"⟩ = q := by
  have one : lines (stripComments "#require \"./a.dti\"\n".toList) =
      ["#require \"./a.dti\"".toList] := by decide
  have read : Directive.read "#require \"./a.dti\"".toList =
      .ok (some (.requirement, "./a.dti".toList)) := rfl
  have target : (Path.mk "b.dti").normalize.resolve (String.ofList "./a.dti".toList) = ⟨"a.dti"⟩ :=
    rfl
  have splices : Splices mutualPair ⟨"b.dti"⟩ q ↔ _ := splices_iff_of_line rfl one read
  rwa [target] at splices

theorem readable_mutualPair : Readable mutualPair (Path.mk "a.dti").normalize := by
  have one_of_two (p : Path) (reached : ReflTransGen (Splices mutualPair) ⟨"a.dti"⟩ p) :
      p = ⟨"a.dti"⟩ ∨ p = ⟨"b.dti"⟩ := by
    induction reached with
    | refl => exact .inl rfl
    | @tail q r _ splices ih =>
      rcases ih with rfl | rfl
      · exact .inr ((splices_mutualPair_first r).1 splices).symm
      · exact .inl ((splices_mutualPair_second r).1 splices).symm
  intro p reached
  rcases one_of_two p reached with rfl | rfl
  · obtain ⟨e, expanded, -⟩ := (splices_mutualPair_first _).2 rfl
    exact ⟨e, expanded⟩
  · obtain ⟨e, expanded, -⟩ := (splices_mutualPair_second _).2 rfl
    exact ⟨e, expanded⟩

theorem fails_expand_mutualPair : Readable mutualPair (Path.mk "a.dti").normalize ∧
    ∃ chain, (expand mutualPair .splice ⟨"a.dti"⟩).start.1 = .error (.cycle chain) ∧
      IsCircle (Splices mutualPair) chain := by
  have there := (splices_mutualPair_first _).2 rfl
  have back := (splices_mutualPair_second _).2 rfl
  obtain ⟨-, fails, circular⟩ :=
    fails_expand_iff_circular mutualPair ⟨"a.dti"⟩ readable_mutualPair
  obtain ⟨failure, failed⟩ := fails.2 ⟨⟨"a.dti"⟩, .refl, .tail (.single there) back⟩
  obtain ⟨chain, rfl, circle, -⟩ := circular failure failed
  exact ⟨readable_mutualPair, chain, failed, circle⟩

end TradeScript
