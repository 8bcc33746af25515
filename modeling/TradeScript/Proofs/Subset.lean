import TradeScript.Counting
import TradeScript.Subset

/-!
# Rounds that come to rest

A table is computed by repeating a step until it changes nothing, but at most a given number of
times (`settle`). If every round that changes the table makes it larger, and no table is larger than
that number, the repetition stops because nothing changes any more (`settle_fixed`).

Tables are made of sets whose bits all belong to elements (`Subset.Proper`); such sets are equal if
they have the same elements, and larger if they have more (`Subset.size_lt`).
-/

namespace TradeScript

namespace Subset

variable {α : Type} [Listed α] {s t : Subset α}

/-- Every bit of a set belongs to an element. -/
def Proper (s : Subset α) : Prop :=
  ∀ i, s.bits.testBit i = true → ∃ a : α, Listed.index a = i

theorem proper_empty : (empty : Subset α).Proper := by
  intro i bit
  simp [empty] at bit

theorem Proper.union (hs : s.Proper) (ht : t.Proper) : (s.union t).Proper := by
  intro i bit
  rw [Subset.union, Nat.testBit_or, Bool.or_eq_true] at bit
  exact bit.elim (hs i) (ht i)

theorem Proper.insert (hs : s.Proper) (a : α) : (s.insert a).Proper := by
  intro i bit
  rw [Subset.insert, Nat.testBit_or, Bool.or_eq_true, Nat.one_shiftLeft, Nat.testBit_two_pow,
    decide_eq_true_eq] at bit
  rcases bit with bit | here
  · exact hs i bit
  · exact ⟨a, here⟩

theorem Proper.ext (hs : s.Proper) (ht : t.Proper) (same : ∀ a, a ∈ s ↔ a ∈ t) : s = t := by
  refine congrArg Subset.mk (Nat.eq_of_testBit_eq fun i => ?_)
  rw [Bool.eq_iff_iff]
  constructor
  · intro bit
    obtain ⟨a, rfl⟩ := hs i bit
    exact (same a).1 bit
  · intro bit
    obtain ⟨a, rfl⟩ := ht i bit
    exact (same a).2 bit

theorem insert_eq_self {a : α} (h : a ∈ s) : s.insert a = s := by
  refine congrArg Subset.mk (Nat.eq_of_testBit_eq fun i => ?_)
  rw [Nat.testBit_or, Nat.one_shiftLeft, Nat.testBit_two_pow]
  by_cases here : Listed.index a = i
  · subst here
    have bit : s.bits.testBit (Listed.index a) = true := h
    simp [bit]
  · simp [here]

omit [Listed α] in
theorem union_self (s : Subset α) : s.union s = s := by
  simp [Subset.union]

/-! ## Sizes -/

/-- The number of elements of a set. -/
def size (s : Subset α) : Nat :=
  (Listed.all (α := α)).countP s.contains

theorem size_le (s : Subset α) : s.size ≤ (Listed.all (α := α)).length :=
  List.countP_le_length

theorem size_lt (sub : ∀ a ∈ s, a ∈ t) {a : α} (new : a ∈ t) (absent : a ∉ s) :
    s.size < t.size :=
  countP_lt_of_imp sub new (by simpa [mem_iff] using absent) (Listed.mem_all a)

end Subset

/-! ## Repeated steps -/

section

variable {α : Type} [DecidableEq α] {step : α → α}

/-- What holds at the start and is kept by the step holds after all rounds. -/
theorem settle_induction {p : α → Prop} (keeps : ∀ a, p a → p (step a)) (rounds : Nat) {a : α}
    (start : p a) : p (settle step rounds a) := by
  induction rounds generalizing a with
  | zero => exact start
  | succ rounds ih =>
    rw [settle]
    split
    · exact start
    · exact ih (keeps a start)

/-- Enough rounds of a step that makes what it changes larger reach what it does not change. -/
theorem settle_fixed (size : α → Nat) {limit : Nat} {p : α → Prop}
    (keeps : ∀ a, p a → p (step a)) (grows : ∀ a, p a → step a ≠ a → size a < size (step a))
    (bound : ∀ a, p a → size a ≤ limit) (rounds : Nat) {a : α} (start : p a)
    (enough : limit ≤ size a + rounds) :
    step (settle step rounds a) = settle step rounds a := by
  induction rounds generalizing a with
  | zero =>
    by_cases fixed : step a = a
    · exact fixed
    · have larger := grows a start fixed
      have small := bound (step a) (keeps a start)
      omega
  | succ rounds ih =>
    rw [settle]
    split
    · next fixed => exact fixed
    · next changed =>
      have larger := grows a start changed
      exact ih (keeps a start) (by omega)

end

end TradeScript
