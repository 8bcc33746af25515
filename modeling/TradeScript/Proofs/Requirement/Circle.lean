import Mathlib.Data.List.Chain
import Mathlib.Logic.Relation
import TradeScript.Proofs.Path.Normal
import TradeScript.Source.Expansion

/-!
# Circles of scripts

A circle leads from a script along some relation back to the same script and meets no other script
twice (`IsCircle`). When a script is met again while the scripts on the way to it are active, the
circle that is reported is one (`isCircle_requireCycle`), and whatever is on a circle leads back to
itself (`IsCircle.exists_transGen_self`).
-/

namespace TradeScript

open Relation

/-- Scripts of which each leads to the next, from one script back to itself. -/
structure IsCircle (leads : Path → Path → Prop) (chain : List Path) : Prop where
  length : 2 ≤ chain.length
  closed : chain.head? = chain.getLast?
  distinct : chain.tail.Pairwise fun p q => (p == q) = false
  linked : chain.IsChain leads

variable {leads : Path → Path → Prop} {active chain : List Path} {p : Path}

/-- A circle that is reported consists of a script that is required again and the active scripts
within it. -/
theorem exists_requireCycle_eq (normal : p.IsNormal) (all : ∀ q ∈ active, q.IsNormal)
    (mem : p ∈ active) : ∃ inner outer, active = inner ++ p :: outer ∧
      requireCycle active p = p :: (inner.reverse ++ [p]) := by
  refine ⟨active.takeWhile fun q => !q == p, (active.dropWhile fun q => !q == p).tail, ?_, rfl⟩
  have some_left : active.dropWhile (fun q => !q == p) ≠ [] := by
    rw [Ne, List.dropWhile_eq_nil_iff]
    intro differ
    simpa using differ p mem
  obtain ⟨q, outer, left⟩ := List.exists_cons_of_ne_nil some_left
  have stops : (q == p) = true := by
    have here := List.head_dropWhile_not (fun q => !q == p) some_left
    simpa [left] using here
  have mem_q : q ∈ active := (List.dropWhile_sublist _).subset (by rw [left]; simp)
  have same : q = p := (all q mem_q).eq_of_beq normal stops
  have whole := List.takeWhile_append_dropWhile (p := fun q => !q == p) (l := active)
  rw [left, same] at whole
  rw [left, List.tail_cons, whole]

/-- A script that is met again closes a circle of active scripts. -/
theorem isCircle_requireCycle (normal : p.IsNormal) (all : ∀ q ∈ active, q.IsNormal)
    (distinct : active.Nodup) (linked : (p :: active).IsChain fun q p => leads p q)
    (mem : p ∈ active) : IsCircle leads (requireCycle active p) := by
  obtain ⟨inner, outer, split, cycle⟩ := exists_requireCycle_eq normal all mem
  have chain : (p :: inner ++ [p]).IsChain fun q p => leads p q := by
    have whole : (p :: active) = (p :: inner ++ [p]) ++ outer := by simp [split]
    exact (whole ▸ linked).left_of_append
  have distinct' : (inner.reverse ++ [p]).Nodup := by
    refine ((List.reverse_perm inner).append_right [p]).nodup_iff.2
      ((split ▸ distinct).sublist ?_)
    simp
  have normal' : ∀ q ∈ inner.reverse ++ [p], q.IsNormal := by
    intro q there
    refine all q ?_
    rw [split]
    simp only [List.mem_append, List.mem_reverse, List.mem_cons, List.not_mem_nil, or_false] at there ⊢
    exact there.imp_right .inl
  rw [cycle]
  refine ⟨by simp, by rw [← List.cons_append, List.getLast?_concat]; rfl, ?_, ?_⟩
  · exact Path.pairwise_of_nodup distinct' normal'
  · have reversed := List.isChain_reverse.2 chain
    simpa using reversed

/-- The script at the ends of a circle leads back to itself. -/
theorem IsCircle.exists_transGen_self (h : IsCircle leads chain) :
    ∃ p ∈ chain.head?, TransGen leads p p := by
  match chain, h with
  | p :: q :: others, h =>
    refine ⟨p, rfl, ?_⟩
    have last : p = (q :: others).getLast (List.cons_ne_nil q others) := by
      have closed := h.closed
      rw [List.head?_cons, List.getLast?_cons_cons, List.getLast?_eq_some_getLast (by simp)] at closed
      exact Option.some.inj closed
    obtain ⟨first, rest⟩ := List.isChain_cons_cons.1 h.linked
    have back : ReflTransGen leads q p := by
      rw [last]
      exact List.relationReflTransGen_of_exists_isChain_cons others rest rfl
    exact .head' first back
  | [], h => exact absurd h.length (by simp)
  | [p], h => exact absurd h.length (by simp)

end TradeScript
