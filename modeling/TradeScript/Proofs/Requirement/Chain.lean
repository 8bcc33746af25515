import Mathlib.Data.List.Basic
import Mathlib.Logic.Relation
import Mathlib.Order.Bounds.Basic
import TradeScript.Proofs.Path.Normal
import TradeScript.Requirement.Graph

/-!
# Chains of requirements

What a script requires is read off its file alone (`Requirement.Requires`), without a survey. A
`Chain` leads from one script to another through a number of requirements; `walk` goes along all
chains up to a length, depth first and in the order of the lines, and meets a script as often as a
chain leads to it (`mem_walk_iff`).

Scripts of which each requires only those after it have no circles: their chains are shorter than
their number (`Grounded.chain_lt`).
-/

namespace TradeScript

namespace Requirement

/-- The scripts that a script requires directly; none if it cannot be read. -/
def targetsOf (files : FileSet) (p : Path) : List Path :=
  match requiredBy files p with
  | .ok targets => targets
  | .error _ => []

/-- A script requires another one directly. -/
def Requires (files : FileSet) (p q : Path) : Prop :=
  q ∈ targetsOf files p

/-- A script requires another one along a chain of the given number of requirements. -/
inductive Chain (files : FileSet) : Nat → Path → Path → Prop
  | nil (p : Path) : Chain files 0 p p
  | cons {n : Nat} {p q r : Path} (first : Requires files p q) (others : Chain files n q r) :
      Chain files (n + 1) p r

/-- The scripts met on the way along all chains from a script up to the given length: the script
itself, and what is met from each script that it requires, one after the other. -/
def walk (files : FileSet) : Nat → Path → List Path
  | 0, p => [p]
  | n + 1, p => p :: (targetsOf files p).flatMap (walk files n)

variable {files : FileSet} {p q r : Path} {m n : Nat}

theorem requires_iff :
    Requires files p q ↔ ∃ targets, requiredBy files p = .ok targets ∧ q ∈ targets := by
  unfold Requires targetsOf
  cases requiredBy files p with
  | ok targets => simp
  | error failure => simp

theorem targetsOf_eq {targets : List Path} (h : requiredBy files p = .ok targets) :
    targetsOf files p = targets := by
  rw [targetsOf, h]

theorem isNormal_of_requiredBy {targets : List Path} (h : requiredBy files p = .ok targets)
    (mem : q ∈ targets) : q.IsNormal := by
  cases loaded : files.load p with
  | error failure =>
    simp only [requiredBy, loaded] at h
    cases h
  | ok text =>
    cases found : ofText p text with
    | error failure =>
      simp only [requiredBy, loaded, bind, Except.bind, found] at h
      cases h
    | ok requirements =>
      simp only [requiredBy, loaded, bind, Except.bind, found] at h
      cases h
      obtain ⟨r, -, rfl⟩ := List.mem_map.1 mem
      exact Path.isNormal_resolve _ _

theorem error_of_ofLines {file : Path} {number : Nat} {lines : List (List Char)} {failure : Failure}
    (h : ofLines file number lines = .error failure) :
    ∃ (line : Nat) (fault : DirectiveFault), failure = fault.failure file line := by
  induction lines generalizing number with
  | nil => cases h
  | cons line others ih =>
    rw [ofLines] at h
    split at h
    · exact ih h
    · split at h
      · cases h
        exact ⟨number, _, rfl⟩
      · cases found : ofLines file (number + 1) others with
        | ok rest =>
          rw [found] at h
          cases h
        | error reason =>
          rw [found] at h
          cases h
          exact ih found

/-- A script cannot be read if it is missing or one of its lines is faulty. -/
theorem error_of_requiredBy {failure : Failure} (h : requiredBy files p = .error failure) :
    failure = .unreadable p (files.absence p) ∨
      ∃ (line : Nat) (fault : DirectiveFault), failure = fault.failure p line := by
  unfold requiredBy FileSet.load at h
  split at h
  · next text _ =>
    cases found : ofText p text with
    | ok requirements =>
      simp only [bind, Except.bind, found] at h
      cases h
    | error reason =>
      simp only [bind, Except.bind, found] at h
      cases h
      exact .inr (error_of_ofLines found)
  · cases h
    exact .inl rfl

theorem Requires.isNormal (h : Requires files p q) : q.IsNormal := by
  obtain ⟨targets, readable, mem⟩ := requires_iff.1 h
  exact isNormal_of_requiredBy readable mem

/-! ## Chains -/

namespace Chain

theorem append (first : Chain files m p q) (others : Chain files n q r) :
    Chain files (m + n) p r := by
  induction first with
  | nil => rwa [Nat.zero_add]
  | cons step _ ih =>
    rw [Nat.succ_add]
    exact .cons step (ih others)

theorem concat (front : Chain files n p q) (last : Requires files q r) :
    Chain files (n + 1) p r :=
  front.append (.cons last (.nil r))

/-- A circle can be gone around any number of times. -/
theorem around (circle : Chain files n p p) (k : Nat) : Chain files (k * n) p p := by
  induction k with
  | zero =>
    rw [Nat.zero_mul]
    exact .nil p
  | succ k ih =>
    rw [Nat.succ_mul]
    exact ih.append circle

end Chain

theorem reflTransGen_iff : Relation.ReflTransGen (Requires files) p q ↔ ∃ n, Chain files n p q := by
  constructor
  · intro h
    induction h with
    | refl => exact ⟨0, .nil p⟩
    | tail _ last ih =>
      obtain ⟨n, front⟩ := ih
      exact ⟨n + 1, front.concat last⟩
  · rintro ⟨n, chain⟩
    induction chain with
    | nil => exact .refl
    | cons first _ ih => exact .head first ih

theorem transGen_iff : Relation.TransGen (Requires files) p q ↔ ∃ n, Chain files (n + 1) p q := by
  rw [Relation.TransGen.head'_iff]
  constructor
  · rintro ⟨r, first, others⟩
    obtain ⟨n, chain⟩ := reflTransGen_iff.1 others
    exact ⟨n, .cons first chain⟩
  · rintro ⟨n, chain⟩
    cases chain with
    | cons first others => exact ⟨_, first, reflTransGen_iff.2 ⟨n, others⟩⟩

/-! ## Walks -/

/-- A walk meets the scripts to which a chain leads that is not longer than the walk. -/
theorem mem_walk_iff : q ∈ walk files n p ↔ ∃ m ≤ n, Chain files m p q := by
  induction n generalizing p with
  | zero =>
    rw [walk, List.mem_singleton]
    constructor
    · rintro rfl
      exact ⟨0, Nat.le_refl 0, .nil q⟩
    · rintro ⟨m, le, chain⟩
      obtain rfl := Nat.le_zero.1 le
      cases chain
      rfl
  | succ n ih =>
    rw [walk, List.mem_cons, List.mem_flatMap]
    constructor
    · rintro (rfl | ⟨r, first, met⟩)
      · exact ⟨0, Nat.zero_le _, .nil q⟩
      · obtain ⟨m, le, others⟩ := ih.1 met
        exact ⟨m + 1, Nat.succ_le_succ le, .cons first others⟩
    · rintro ⟨m, le, chain⟩
      cases chain with
      | nil => exact .inl rfl
      | cons first others => exact .inr ⟨_, first, ih.2 ⟨_, Nat.le_of_succ_le_succ le, others⟩⟩

/-- A walk that is longer than all chains goes nowhere further. -/
theorem walk_succ (short : ∀ q, ¬ Chain files (n + 1) p q) :
    walk files (n + 1) p = walk files n p := by
  induction n generalizing p with
  | zero =>
    have none_required : targetsOf files p = [] := by
      rw [List.eq_nil_iff_forall_not_mem]
      exact fun q first => short q (.cons first (.nil q))
    rw [walk, walk, none_required, List.flatMap_nil]
  | succ n ih =>
    rw [walk, walk]
    congr 1
    exact List.flatMap_congr fun q first => ih fun r others => short r (.cons first others)

theorem walk_eq_of_le (short : ∀ k q, Chain files k p q → k ≤ m) (le : m ≤ n) :
    walk files n p = walk files m p := by
  induction n, le using Nat.le_induction with
  | base => rfl
  | succ n le ih =>
    rw [walk_succ fun q chain => ?_, ih]
    exact absurd (short _ _ chain) (by omega)

/-! ## Scripts without circles -/

/-- Each of some scripts, given with its requirements, requires only those after it. -/
def Grounded (files : FileSet) : List (Path × List Path) → Prop
  | [] => True
  | (p, targets) :: others => requiredBy files p = .ok targets ∧
      (∀ q ∈ targets, q ∈ others.map Prod.fst) ∧ p ∉ others.map Prod.fst ∧ Grounded files others

namespace Grounded

variable {edges : List (Path × List Path)}

theorem nodup (h : Grounded files edges) : (edges.map Prod.fst).Nodup := by
  induction edges with
  | nil => exact List.nodup_nil
  | cons edge others ih =>
    obtain ⟨-, -, new, grounded⟩ := h
    exact List.nodup_cons.2 ⟨new, ih grounded⟩

theorem requiredBy_of_mem (h : Grounded files edges) {targets : List Path}
    (mem : (p, targets) ∈ edges) : requiredBy files p = .ok targets := by
  induction edges with
  | nil => cases mem
  | cons edge others ih =>
    obtain ⟨readable, -, -, grounded⟩ := h
    rcases List.mem_cons.1 mem with rfl | mem
    · exact readable
    · exact ih grounded mem

/-- A chain stays among scripts that require only those after them, and is shorter than their
number. -/
theorem chain_lt (h : Grounded files edges) (chain : Chain files n p q)
    (mem : p ∈ edges.map Prod.fst) : q ∈ edges.map Prod.fst ∧ n < edges.length := by
  induction edges generalizing p n with
  | nil => cases mem
  | cons edge others ih =>
    obtain ⟨readable, after, -, grounded⟩ := h
    rw [List.map_cons, List.length_cons]
    rcases List.mem_cons.1 mem with rfl | mem
    · cases chain with
      | nil => exact ⟨List.mem_cons_self, Nat.succ_pos _⟩
      | cons first chain =>
        obtain ⟨targets, readable', mem⟩ := requires_iff.1 first
        cases readable.symm.trans readable'
        obtain ⟨there, lt⟩ := ih grounded chain (after _ mem)
        exact ⟨List.mem_cons_of_mem _ there, Nat.succ_lt_succ lt⟩
    · obtain ⟨there, lt⟩ := ih grounded chain mem
      exact ⟨List.mem_cons_of_mem _ there, Nat.lt_succ_of_lt lt⟩

theorem not_transGen_self (h : Grounded files edges) (mem : p ∈ edges.map Prod.fst) :
    ¬ Relation.TransGen (Requires files) p p := by
  rw [transGen_iff]
  rintro ⟨n, circle⟩
  -- gone around once for each script, the circle is longer than any chain
  have lt := (h.chain_lt (circle.around edges.length) mem).2
  rw [Nat.mul_succ] at lt
  omega

end Grounded

end Requirement

end TradeScript
