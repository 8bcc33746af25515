import TradeScript.Source.FileSet

/-!
# Runs of computations that read

`Reading.Ends` says that a computation, started with a journal, succeeds with a result and leaves a
journal, and `Reading.Fails` that it fails and leaves one. Their lemmas take a run apart along the
steps of the computation. A `Reading.Tame` computation ends alike from every journal.
-/

namespace TradeScript

namespace Reading

variable {α β : Type} {journal journal' : Journal}

/-- Started with `journal`, a computation succeeds with `result` and leaves `journal'`. -/
def Ends (computation : Reading α) (journal : Journal) (result : α) (journal' : Journal) : Prop :=
  computation.run.run journal = (.ok result, journal')

theorem ends_pure_iff {a b : α} :
    Ends (pure a) journal b journal' ↔ a = b ∧ journal = journal' := by
  constructor
  · rintro ⟨⟩
    exact ⟨rfl, rfl⟩
  · rintro ⟨rfl, rfl⟩
    rfl

theorem run_bind (first : Reading α) (next : α → Reading β) (journal : Journal) :
    (first >>= next).run.run journal = match first.run.run journal with
      | (.ok a, middle) => (next a).run.run middle
      | (.error failure, middle) => (.error failure, middle) := by
  simp only [bind, ExceptT.bind, ExceptT.mk, ExceptT.run, ExceptT.bindCont, StateT.bind, StateT.run]
  cases first journal with
  | mk outcome middle => cases outcome <;> rfl

theorem ends_bind_iff {first : Reading α} {next : α → Reading β} {b : β} :
    (first >>= next).Ends journal b journal' ↔
      ∃ a middle, first.Ends journal a middle ∧ (next a).Ends middle b journal' := by
  unfold Ends
  rw [run_bind]
  constructor
  · intro h
    split at h
    · next a middle step => exact ⟨a, middle, step, h⟩
    · cases h
  · rintro ⟨a, middle, step, rest⟩
    rw [step]
    exact rest

theorem ends_ofExcept_iff {x : Except Failure α} {a : α} :
    (ofExcept x).Ends journal a journal' ↔ x = .ok a ∧ journal = journal' := by
  cases x with
  | ok b =>
    rw [ofExcept, ends_pure_iff, Except.ok.injEq]
  | error failure =>
    constructor
    · rintro ⟨⟩
    · rintro ⟨⟨⟩, -⟩

theorem not_ends_fail {failure : Failure} {a : α} :
    ¬ (fail failure : Reading α).Ends journal a journal' := by
  rintro ⟨⟩

theorem ends_ask_iff {p : Path} {a : Unit} : (ask p).Ends journal a journal' ↔
    { journal with reads := journal.reads ++ [p] } = journal' := by
  constructor
  · rintro ⟨⟩
    rfl
  · rintro rfl
    rfl

theorem start_eq_ok_iff {computation : Reading α} {a : α} :
    computation.start.1 = .ok a ↔ computation.Ends .empty a computation.start.2 :=
  ⟨fun h => Prod.ext h rfl, congrArg Prod.fst⟩

/-! ## Failing runs -/

/-- Started with `journal`, a computation fails with `failure` and leaves `journal'`. -/
def Fails (computation : Reading α) (journal : Journal) (failure : Failure) (journal' : Journal) :
    Prop :=
  computation.run.run journal = (.error failure, journal')

variable {failure : Failure}

theorem not_fails_pure {a : α} : ¬ (pure a : Reading α).Fails journal failure journal' := by
  rintro ⟨⟩

theorem not_fails_ask {p : Path} : ¬ (ask p).Fails journal failure journal' := by
  rintro ⟨⟩

theorem fails_fail_iff {reason : Failure} :
    (fail reason : Reading α).Fails journal failure journal' ↔
      reason = failure ∧ journal = journal' := by
  constructor
  · rintro ⟨⟩
    exact ⟨rfl, rfl⟩
  · rintro ⟨rfl, rfl⟩
    rfl

theorem fails_bind_iff {first : Reading α} {next : α → Reading β} :
    (first >>= next).Fails journal failure journal' ↔ first.Fails journal failure journal' ∨
      ∃ a middle, first.Ends journal a middle ∧ (next a).Fails middle failure journal' := by
  unfold Fails Ends
  rw [run_bind]
  constructor
  · intro h
    split at h
    · next a middle step => exact .inr ⟨a, middle, step, h⟩
    · next step =>
      cases h
      exact .inl step
  · rintro (step | ⟨a, middle, step, rest⟩)
    · rw [step]
    · rw [step]
      exact rest

/-- What is made of a result does not make a computation fail. -/
theorem fails_bind_pure_iff {first : Reading α} {make : α → β} :
    (first >>= fun a => pure (make a)).Fails journal failure journal' ↔
      first.Fails journal failure journal' := by
  rw [fails_bind_iff, or_iff_left]
  rintro ⟨a, middle, -, fails⟩
  exact not_fails_pure fails

theorem fails_ofExcept_iff {x : Except Failure α} :
    (ofExcept x).Fails journal failure journal' ↔ x = .error failure ∧ journal = journal' := by
  cases x with
  | ok a =>
    constructor
    · exact fun h => absurd h not_fails_pure
    · rintro ⟨⟨⟩, -⟩
  | error reason => rw [ofExcept, fails_fail_iff, Except.error.injEq]

theorem start_eq_error_iff {computation : Reading α} :
    computation.start.1 = .error failure ↔
      computation.Fails .empty failure computation.start.2 :=
  ⟨fun h => Prod.ext h rfl, congrArg Prod.fst⟩

theorem start_eq_error_of_fails {computation : Reading α}
    (h : computation.Fails .empty failure journal') : computation.start.1 = .error failure :=
  congrArg Prod.fst h

/-! ## Outcomes -/

/-- Whether a computation succeeds, and with what, does not depend on the journal it starts with, and
it fails in certain ways only. -/
structure Tame (kind : Failure → Prop) (computation : Reading α) : Prop where
  steady : ∀ journal journal', (computation.run.run journal).1 = (computation.run.run journal').1
  failure : ∀ journal failure journal', computation.Fails journal failure journal' → kind failure

variable {kind : Failure → Prop}

theorem tame_pure (a : α) : (pure a : Reading α).Tame kind :=
  ⟨fun _ _ => rfl, fun _ _ _ h => absurd h not_fails_pure⟩

theorem tame_ask (p : Path) : (ask p).Tame kind :=
  ⟨fun _ _ => rfl, fun _ _ _ h => absurd h not_fails_ask⟩

theorem tame_warn (warnings : List Warning) : (warn warnings).Tame kind :=
  ⟨fun _ _ => rfl, by rintro _ _ _ ⟨⟩⟩

theorem tame_fail (h : kind failure) : (fail failure : Reading α).Tame kind := by
  refine ⟨fun _ _ => rfl, fun journal reason journal' fails => ?_⟩
  rwa [← (fails_fail_iff.1 fails).1]

theorem tame_ofExcept {x : Except Failure α} (h : ∀ failure, x = .error failure → kind failure) :
    (ofExcept x).Tame kind := by
  cases x with
  | ok a => exact tame_pure a
  | error failure => exact tame_fail (h failure rfl)

theorem Tame.bind {first : Reading α} {next : α → Reading β} (h : first.Tame kind)
    (h' : ∀ a, (next a).Tame kind) : (first >>= next).Tame kind := by
  constructor
  · intro journal journal'
    have same := h.steady journal journal'
    rw [run_bind, run_bind]
    generalize first.run.run journal = run at same ⊢
    generalize first.run.run journal' = run' at same ⊢
    obtain ⟨outcome, middle⟩ := run
    obtain ⟨outcome', middle'⟩ := run'
    obtain rfl : outcome = outcome' := same
    cases outcome with
    | ok a => exact (h' a).steady middle middle'
    | error failure => rfl
  · intro journal failure journal' fails
    rcases fails_bind_iff.1 fails with fails | ⟨a, middle, -, fails⟩
    · exact h.failure journal failure journal' fails
    · exact (h' a).failure middle failure journal' fails

theorem Tame.imp {kind' : Failure → Prop} {computation : Reading α} (h : computation.Tame kind)
    (imp : ∀ failure, kind failure → kind' failure) : computation.Tame kind' :=
  ⟨h.steady, fun _ failure _ fails => imp failure (h.failure _ _ _ fails)⟩

theorem Tame.start_eq_ok {computation : Reading α} (h : computation.Tame kind) {a : α}
    (ends : computation.Ends journal a journal') : computation.start.1 = .ok a :=
  (h.steady Journal.empty journal).trans (congrArg Prod.fst ends)

theorem Tame.ends_of_start {computation : Reading α} (h : computation.Tame kind) {a : α}
    (ok : computation.start.1 = .ok a) (journal : Journal) :
    ∃ journal', computation.Ends journal a journal' :=
  ⟨_, Prod.ext ((h.steady journal .empty).trans ok) rfl⟩

end Reading

end TradeScript
