/-!
# Counting

A count goes down when its condition becomes stronger and loses an element
(`countP_lt_of_imp`). Searches that never visit a place twice end because of it
(`countP_new_cons_lt`).
-/

namespace TradeScript

theorem countP_lt_of_imp {α : Type} {p q : α → Bool} (imp : ∀ x, q x = true → p x = true) {a : α}
    (hp : p a = true) (hq : q a = false) {l : List α} (mem : a ∈ l) : l.countP q < l.countP p := by
  induction l with
  | nil => cases mem
  | cons x l ih =>
    have le : l.countP q ≤ l.countP p := List.countP_mono_left fun y _ => imp y
    rw [List.countP_cons, List.countP_cons]
    by_cases here : a = x
    · subst here
      rw [hp, hq]
      exact Nat.lt_succ_of_le le
    · have lt := ih ((List.mem_cons.1 mem).resolve_left here)
      cases hqx : q x with
      | true =>
        rw [imp x hqx]
        exact Nat.succ_lt_succ lt
      | false => exact Nat.lt_of_lt_of_le lt (Nat.le_add_right _ _)

/-- Fewer elements of a list are new after one of them has been seen. -/
theorem countP_new_cons_lt {α : Type} [BEq α] [LawfulBEq α] {a : α} {seen l : List α}
    (new : a ∉ seen) (mem : a ∈ l) :
    l.countP (fun x => !(a :: seen).contains x) < l.countP (fun x => !seen.contains x) :=
  countP_lt_of_imp (a := a)
    (fun x => by simp only [List.contains_cons, Bool.not_or, Bool.and_eq_true]; exact And.right)
    (by simpa using new) (by simp) mem

end TradeScript
