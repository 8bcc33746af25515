import Mathlib.Data.List.Nodup
import TradeScript.Plugin
import TradeScript.Proofs.Source.Expansion

/-!
# Composing indicators

A script gives the label and the class of its indicator by directives (`Gives`). Indicators are
composed one after another, and none has the label or the class of one before it
(`Plugin.composed_of_ends`); otherwise the failure names two of the scripts that give the same
(`Plugin.clashing_of_fails`).
-/

namespace TradeScript

/-- The one directive of a kind in a script has the given argument. -/
def Gives (files : FileSet) (p : Path) (kind : DirectiveKind) (argument : String) : Prop :=
  ∃ e, (expand files .elide p).start.1 = .ok e ∧ e.theDirective kind p = .ok argument

namespace Failure

/-- Two scripts share a name, or one declares a name twice. -/
def IsClash : Failure → Prop
  | sharedLabel .. => True
  | sharedClass .. => True
  | redeclared .. => True
  | _ => False

theorem OfFiles.not_isClash {failure : Failure} (h : failure.OfFiles) : ¬ failure.IsClash := by
  cases failure <;> first | exact id | exact h.elim

end Failure

namespace Plugin

variable {g : Grammar} {templates : Templates} {files : FileSet} {p : Path} {i : Indicator}
  {composed indicators : List Indicator} {paths : List Path} {failure : Failure}
  {journal journal' : Journal}

/-! ## One indicator -/

theorem not_isClash_of_theDirective {e : Expansion} {kind : DirectiveKind}
    (h : e.theDirective kind p = .error failure) : ¬ failure.IsClash := by
  unfold Expansion.theDirective at h
  split at h
  · cases h
    exact id
  · cases h
  · cases h
    exact id

theorem tame_tokensOf (e : Expansion) (p : Path) : (tokensOf e p).Tame (¬ ·.IsClash) :=
  .bind (Reading.tame_warn _) fun _ => Reading.tame_pure _

theorem tame_parse (g : Grammar) (tokens : List Token) : (parse g tokens).Tame (¬ ·.IsClash) := by
  refine Reading.tame_ofExcept fun failure failed => ?_
  cases read : Tree.parse g g.root tokens with
  | ok t =>
    rw [read] at failed
    cases failed
  | error d =>
    rw [read] at failed
    cases failed
    exact id

theorem tame_check {fault : Option Failure} (h : ∀ failure ∈ fault, ¬ failure.IsClash) :
    (check fault).Tame (¬ ·.IsClash) := by
  cases fault with
  | none => exact Reading.tame_pure _
  | some failure => exact Reading.tame_fail (h failure rfl)

theorem ends_check_iff {fault : Option Failure} :
    (check fault).Ends journal () journal' ↔ fault = none ∧ journal = journal' := by
  cases fault with
  | none => simp [check, Reading.ends_pure_iff]
  | some failure => simp [check, Reading.not_ends_fail]

theorem fails_check_iff {fault : Option Failure} :
    (check fault).Fails journal failure journal' ↔ fault = some failure ∧ journal = journal' := by
  cases fault with
  | none => simp [check, Reading.not_fails_pure]
  | some reason => simp [check, Reading.fails_fail_iff]

theorem not_isClash_of_indicatorFault? {script : Tree} (h : script.indicatorFault? = some failure) :
    ¬ failure.IsClash := by
  unfold Tree.indicatorFault? at h
  split at h
  · cases h
    exact id
  · obtain ⟨statement, -, rfl⟩ := Option.map_eq_some_iff.1 h
    exact id

theorem ends_tokensOf_iff {e : Expansion} {tokens : List Token} :
    (tokensOf e p).Ends journal tokens journal' ↔ Token.ofText p.text e.text = tokens ∧
      { journal with warnings := journal.warnings ++ Warning.ofText p.text e.text } = journal' := by
  unfold tokensOf
  rw [Reading.ends_bind_iff]
  constructor
  · rintro ⟨⟨⟩, middle, ⟨⟩, ends⟩
    exact Reading.ends_pure_iff.1 ends
  · rintro ⟨rfl, rfl⟩
    exact ⟨(), _, rfl, rfl⟩

theorem ends_parse_iff {tokens : List Token} {script : Tree} :
    (parse g tokens).Ends journal script journal' ↔
      Tree.parse g g.root tokens = .ok script ∧ journal = journal' := by
  unfold parse
  rw [Reading.ends_ofExcept_iff]
  cases Tree.parse g g.root tokens <;> simp [Except.mapError]

theorem fails_parse_iff {tokens : List Token} :
    (parse g tokens).Fails journal failure journal' ↔
      (∃ d, Tree.parse g g.root tokens = .error d ∧ failure = .malformed d) ∧
        journal = journal' := by
  unfold parse
  rw [Reading.fails_ofExcept_iff]
  cases Tree.parse g g.root tokens <;> simp [Except.mapError, eq_comm]

/-- Composing an indicator does not depend on what was read before, and does not compare it with
others. -/
theorem tame_composeIndicator (g : Grammar) (templates : Templates) (files : FileSet) (p : Path) :
    (composeIndicator g templates files p).Tame (¬ ·.IsClash) := by
  unfold composeIndicator
  refine .bind ((tame_expand files .elide p).imp fun _ => Failure.OfFiles.not_isClash) fun e => ?_
  refine .bind (Reading.tame_ofExcept fun _ => not_isClash_of_theDirective) fun label => ?_
  refine .bind (Reading.tame_ofExcept fun _ => not_isClash_of_theDirective) fun className => ?_
  refine .bind (tame_tokensOf e p) fun tokens => .bind (tame_parse g tokens) fun script => ?_
  refine .bind (tame_check fun _ => not_isClash_of_indicatorFault?) fun _ => Reading.tame_pure _

theorem ends_composeIndicator_iff :
    (composeIndicator g templates files p).Ends journal i journal' ↔
      ∃ e label className script middle, (expand files .elide p).Ends journal e middle ∧
        e.theDirective .label p = .ok label ∧ e.theDirective .className p = .ok className ∧
        Tree.parse g g.root (Token.ofText p.text e.text) = .ok script ∧
        script.indicatorFault? = none ∧
        { middle with warnings := middle.warnings ++ Warning.ofText p.text e.text } = journal' ∧
        ⟨p, className, label,
          templates.indicator.substitute (indicatorValues e className label script)⟩ = i := by
  unfold composeIndicator
  simp only [Reading.ends_bind_iff, Reading.ends_ofExcept_iff, Reading.ends_pure_iff,
    ends_tokensOf_iff, ends_parse_iff]
  constructor
  · rintro ⟨e, middle, expanded, label, _, ⟨labelled, rfl⟩, className, _, ⟨named, rfl⟩, _, _,
      ⟨rfl, rfl⟩, script, _, ⟨parsed, rfl⟩, ⟨⟩, _, checked, rfl, rfl⟩
    obtain ⟨allowed, rfl⟩ := ends_check_iff.1 checked
    exact ⟨e, label, className, script, middle, expanded, labelled, named, parsed, allowed, rfl, rfl⟩
  · rintro ⟨e, label, className, script, middle, expanded, labelled, named, parsed, allowed, rfl,
      rfl⟩
    exact ⟨e, middle, expanded, label, middle, ⟨labelled, rfl⟩, className, middle, ⟨named, rfl⟩, _, _,
      ⟨rfl, rfl⟩, script, _, ⟨parsed, rfl⟩, (), _, ends_check_iff.2 ⟨allowed, rfl⟩, rfl, rfl⟩

/-- An indicator has the label and the class that its script gives. -/
theorem gives_of_composeIndicator (h : (composeIndicator g templates files p).start.1 = .ok i) :
    i.path = p ∧ Gives files p .label i.label ∧ Gives files p .className i.className := by
  obtain ⟨e, label, className, script, _, expanded, labelled, named, -, -, -, rfl⟩ :=
    ends_composeIndicator_iff.1 (Reading.start_eq_ok_iff.1 h)
  have found := (tame_expand files .elide p).start_eq_ok expanded
  exact ⟨rfl, ⟨e, found, labelled⟩, ⟨e, found, named⟩⟩

/-! ## Indicators one after another -/

/-- An indicator is what its script is composed to. -/
def IsOwn (g : Grammar) (templates : Templates) (files : FileSet) (i : Indicator) : Prop :=
  (composeIndicator g templates files i.path).start.1 = .ok i

/-- Two indicators share a label, or else a class, and the failure says so. -/
def Clashing (i j : Indicator) (failure : Failure) : Prop :=
  i.label = j.label ∧ failure = .sharedLabel j.label i.path.text j.path.text ∨
    i.className = j.className ∧ failure = .sharedClass j.className i.path.text j.path.text

/-- Indicators with labels and classes of their own. -/
structure Composed (g : Grammar) (templates : Templates) (files : FileSet)
    (indicators : List Indicator) : Prop where
  own : ∀ i ∈ indicators, IsOwn g templates files i
  labels : (indicators.map Indicator.label).Nodup
  classes : (indicators.map Indicator.className).Nodup

theorem clash?_eq_none {new : Indicator} (h : clash? composed new = none) :
    new.label ∉ composed.map Indicator.label ∧ new.className ∉ composed.map Indicator.className := by
  unfold clash? at h
  split at h
  · cases h
  · next none_found =>
    rw [Option.map_eq_none_iff] at h
    rw [List.find?_eq_none] at none_found h
    simp only [decide_eq_true_eq] at none_found h
    simpa using ⟨none_found, h⟩

theorem clash?_eq_some {new : Indicator} (h : clash? composed new = some failure) :
    ∃ i ∈ composed, Clashing i new failure := by
  unfold clash? at h
  split at h
  · next i found =>
    cases h
    exact ⟨i, List.mem_of_find?_eq_some found, .inl ⟨by simpa using List.find?_some found, rfl⟩⟩
  · obtain ⟨i, found, rfl⟩ := Option.map_eq_some_iff.1 h
    exact ⟨i, List.mem_of_find?_eq_some found, .inr ⟨by simpa using List.find?_some found, rfl⟩⟩

theorem nodup_map_concat {α β : Type} {f : α → β} {xs : List α} {x : α} (distinct : (xs.map f).Nodup)
    (new : f x ∉ xs.map f) : ((xs ++ [x]).map f).Nodup := by
  rw [List.map_append, List.map_singleton, ← List.concat_eq_append]
  exact distinct.concat new

theorem Composed.concat {new : Indicator} (h : Composed g templates files composed)
    (own : IsOwn g templates files new) (apart : clash? composed new = none) :
    Composed g templates files (composed ++ [new]) := by
  obtain ⟨label, className⟩ := clash?_eq_none apart
  exact ⟨List.forall_mem_append.2 ⟨h.own, by simpa using own⟩, nodup_map_concat h.labels label,
    nodup_map_concat h.classes className⟩

theorem isOwn_of_ends (h : (composeIndicator g templates files p).Ends journal i journal') :
    i.path = p ∧ IsOwn g templates files i := by
  have own := (tame_composeIndicator g templates files p).start_eq_ok h
  have path := (gives_of_composeIndicator own).1
  refine ⟨path, ?_⟩
  rw [IsOwn, path]
  exact own

/-- The scripts are composed in order, with labels and classes of their own. -/
theorem composed_of_ends (h : Composed g templates files composed)
    (ends : (composeIndicators g templates files composed paths).Ends journal indicators journal') :
    Composed g templates files indicators ∧
      indicators.map Indicator.path = composed.map Indicator.path ++ paths := by
  induction paths generalizing composed journal with
  | nil =>
    obtain ⟨rfl, -⟩ := Reading.ends_pure_iff.1 ends
    exact ⟨h, by simp⟩
  | cons p others ih =>
    obtain ⟨new, _, composing, ends⟩ := Reading.ends_bind_iff.1 ends
    obtain ⟨⟨⟩, _, checked, ends⟩ := Reading.ends_bind_iff.1 ends
    obtain ⟨path, own⟩ := isOwn_of_ends composing
    obtain ⟨all, order⟩ := ih (h.concat own (ends_check_iff.1 checked).1) ends
    exact ⟨all, by simp [order, path]⟩

/-- If composing fails because of a clash, then two of the scripts, one after the other, are
composed to indicators that clash. -/
theorem clashing_of_fails (own : ∀ i ∈ composed, IsOwn g templates files i)
    (fails : (composeIndicators g templates files composed paths).Fails journal failure journal')
    (clash : failure.IsClash) :
    ∃ i j, [i.path, j.path].Sublist (composed.map Indicator.path ++ paths) ∧
      IsOwn g templates files i ∧ IsOwn g templates files j ∧ Clashing i j failure := by
  induction paths generalizing composed journal with
  | nil => exact absurd fails Reading.not_fails_pure
  | cons p others ih =>
    rcases Reading.fails_bind_iff.1 fails with failed | ⟨new, _, composing, failed⟩
    · exact absurd clash ((tame_composeIndicator g templates files p).failure _ _ _ failed)
    · obtain ⟨path, own_new⟩ := isOwn_of_ends composing
      -- either this indicator is refused, or it stays and a later one is
      rcases Reading.fails_bind_iff.1 failed with checked | ⟨⟨⟩, _, -, failed⟩
      · obtain ⟨i, mem, clashing⟩ := clash?_eq_some (fails_check_iff.1 checked).1
        refine ⟨i, new, ?_, own i mem, own_new, clashing⟩
        exact (List.singleton_sublist.2 (List.mem_map_of_mem mem)).append
          (List.singleton_sublist.2 (path ▸ List.mem_cons_self))
      · have all : ∀ i ∈ composed ++ [new], IsOwn g templates files i :=
          List.forall_mem_append.2 ⟨own, by simpa using own_new⟩
        simpa [path] using ih all failed

end Plugin

end TradeScript
