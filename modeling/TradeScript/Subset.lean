/-!
# Subsets of a listed type

A type is listed if all its elements stand in one list, each at a known place (`Listed`). A subset
of such a type is a number, whose bit at the place of an element says whether it belongs (`Subset`).
Membership after each operation is given by the `mem_` lemmas. `settle` repeats a step until nothing
changes.
-/

namespace TradeScript

/-- A type whose elements stand in one list, each at a known place. -/
class Listed (α : Type) where
  all : List α
  index : α → Nat
  getElem?_index : ∀ a, all[index a]? = some a

theorem Listed.index_injective {α : Type} [Listed α] {a b : α}
    (h : Listed.index a = Listed.index b) : a = b := by
  have := Listed.getElem?_index a
  rw [h, Listed.getElem?_index b] at this
  exact (Option.some.inj this).symm

theorem Listed.mem_all {α : Type} [Listed α] (a : α) : a ∈ Listed.all (α := α) :=
  List.mem_of_getElem? (Listed.getElem?_index a)

/-- A subset of a listed type; bit `Listed.index a` says whether `a` belongs. -/
structure Subset (α : Type) where
  bits : Nat
  deriving DecidableEq

namespace Subset

variable {α : Type} [Listed α]

/-- The subset without elements. -/
def empty : Subset α :=
  ⟨0⟩

/-- Whether an element belongs to a subset. -/
def contains (s : Subset α) (a : α) : Bool :=
  s.bits.testBit (Listed.index a)

/-- The elements of both subsets. -/
def union (s t : Subset α) : Subset α :=
  ⟨s.bits ||| t.bits⟩

/-- A subset and one more element. -/
def insert (s : Subset α) (a : α) : Subset α :=
  ⟨s.bits ||| 1 <<< Listed.index a⟩

/-- The elements of a subset in the order of the type. -/
def toList (s : Subset α) : List α :=
  Listed.all.filter s.contains

instance : Membership α (Subset α) where
  mem s a := s.contains a = true

instance (a : α) (s : Subset α) : Decidable (a ∈ s) :=
  inferInstanceAs (Decidable (s.contains a = true))

theorem mem_iff {a : α} {s : Subset α} : a ∈ s ↔ s.contains a = true :=
  Iff.rfl

@[simp]
theorem not_mem_empty (a : α) : ¬ a ∈ (empty : Subset α) := by
  simp [mem_iff, contains, empty]

@[simp]
theorem mem_union {a : α} {s t : Subset α} : a ∈ s.union t ↔ a ∈ s ∨ a ∈ t := by
  simp [mem_iff, contains, union]

@[simp]
theorem mem_insert {a b : α} {s : Subset α} : a ∈ s.insert b ↔ a ∈ s ∨ a = b := by
  have shift : (1 <<< Listed.index b).testBit (Listed.index a) = true ↔ a = b := by
    rw [Nat.one_shiftLeft, Nat.testBit_two_pow]
    simp only [decide_eq_true_eq]
    exact ⟨fun h => (Listed.index_injective h).symm, fun h => by rw [h]⟩
  simp only [mem_iff, contains, insert, Nat.testBit_or, Bool.or_eq_true, shift]

@[simp]
theorem mem_toList {a : α} {s : Subset α} : a ∈ s.toList ↔ a ∈ s := by
  simp [toList, mem_iff, Listed.mem_all]

end Subset

/-- The value reached from `a` when `step` is repeated until it changes nothing, but not more often
than `rounds`. -/
def settle {α : Type} [DecidableEq α] (step : α → α) : (rounds : Nat) → α → α
  | 0, a => a
  | rounds + 1, a => if step a = a then a else settle step rounds (step a)

end TradeScript
