import Mathlib.Logic.Relation
import TradeScript.Proofs.Grammar.Derivation

/-!
# First terminals

A sequence of goals is rewritten from the left: the goal at the front is replaced by goals that may
stand for it (`Grammar.Rewrites`). A terminal is first for a sequence if rewriting can put it at the
front (`Grammar.First`). What stands behind it is not looked at, and nothing need be derivable from
it.

What can be derived from a goal begins with one of its first terminals (`Yields.first`), and a goal
from which nothing can be derived can be passed over (`Yields.passed`).
-/

namespace TradeScript

open Relation

namespace Grammar

/-- The goals that may stand for one goal. -/
inductive Expands (g : Grammar) : Goal → List Goal → Prop
  | phrase {n : NonTerminal} {a : Alternative} (mem : a ∈ g.alternatives n) :
      Expands g (.symbol (.nonTerminal n)) [.parts a]
  | nil : Expands g (.parts []) []
  | cons (p : Part) (ps : List Part) : Expands g (.parts (p :: ps)) [.part p, .parts ps]
  | once (s : Symbol) : Expands g (.part ⟨s, .once⟩) [.symbol s]
  | omitted (s : Symbol) : Expands g (.part ⟨s, .optional⟩) []
  | present (s : Symbol) : Expands g (.part ⟨s, .optional⟩) [.symbol s]
  | repeated (s : Symbol) : Expands g (.part ⟨s, .many⟩) [.many s]
  | noElement (s : Symbol) : Expands g (.part ⟨s, .separated⟩) []
  | separated (s : Symbol) : Expands g (.part ⟨s, .separated⟩) [.symbol s, .further s]
  | manyNil (s : Symbol) : Expands g (.many s) []
  | manyCons (s : Symbol) : Expands g (.many s) [.symbol s, .many s]
  | furtherNil (s : Symbol) : Expands g (.further s) []
  | furtherCons (s : Symbol) :
      Expands g (.further s) [.symbol (.terminal (.mark .comma)), .symbol s, .further s]

/-- The goal at the front is replaced by goals that may stand for it. -/
inductive Rewrites (g : Grammar) : List Goal → List Goal → Prop
  | front {goal : Goal} {new : List Goal} (expands : g.Expands goal new) (rest : List Goal) :
      Rewrites g (goal :: rest) (new ++ rest)

/-- Rewriting can put a terminal at the front of some goals. -/
def First (g : Grammar) (goals : List Goal) (k : Terminal) : Prop :=
  ∃ rest, ReflTransGen g.Rewrites goals (.symbol (.terminal k) :: rest)

variable {g : Grammar} {goal : Goal} {goals new rest : List Goal} {k : Terminal}

/-! ## Rewriting -/

theorem Rewrites.append (h : g.Rewrites goals new) (rest : List Goal) :
    g.Rewrites (goals ++ rest) (new ++ rest) := by
  cases h with
  | front expands others =>
    rw [List.append_assoc]
    exact .front expands (others ++ rest)

theorem Expands.rewrites_trans {target : List Goal} (h : g.Expands goal new)
    (later : ReflTransGen g.Rewrites (new ++ rest) target) :
    ReflTransGen g.Rewrites (goal :: rest) target :=
  .head (.front h rest) later

/-- A goal from which nothing can be derived can be passed over. -/
theorem Yields.passed {ks : List Terminal} (h : g.Yields goal ks) (empty : ks = [])
    (rest : List Goal) : ReflTransGen g.Rewrites (goal :: rest) rest := by
  induction h generalizing rest with
  | terminal k => cases empty
  | phrase mem body ih => exact (Expands.phrase mem).rewrites_trans (ih empty rest)
  | nil => exact Expands.nil.rewrites_trans .refl
  | cons first others ih₁ ih₂ =>
    obtain ⟨rfl, rfl⟩ := List.append_eq_nil_iff.1 empty
    exact (Expands.cons _ _).rewrites_trans ((ih₁ rfl _).trans (ih₂ rfl rest))
  | once one ih => exact (Expands.once _).rewrites_trans (ih empty rest)
  | omitted s => exact (Expands.omitted s).rewrites_trans .refl
  | present one ih => exact (Expands.present _).rewrites_trans (ih empty rest)
  | repeated some ih => exact (Expands.repeated _).rewrites_trans (ih empty rest)
  | noElement s => exact (Expands.noElement s).rewrites_trans .refl
  | separated first others ih₁ ih₂ =>
    obtain ⟨rfl, rfl⟩ := List.append_eq_nil_iff.1 empty
    exact (Expands.separated _).rewrites_trans ((ih₁ rfl _).trans (ih₂ rfl rest))
  | manyNil s => exact (Expands.manyNil s).rewrites_trans .refl
  | manyCons first others ih₁ ih₂ =>
    obtain ⟨rfl, rfl⟩ := List.append_eq_nil_iff.1 empty
    exact (Expands.manyCons _).rewrites_trans ((ih₁ rfl _).trans (ih₂ rfl rest))
  | furtherNil s => exact (Expands.furtherNil s).rewrites_trans .refl
  | furtherCons first others ih₁ ih₂ => cases empty

/-! ## First terminals -/

theorem first_terminal (k : Terminal) (rest : List Goal) :
    g.First (.symbol (.terminal k) :: rest) k :=
  ⟨rest, .refl⟩

theorem First.append (h : g.First goals k) (rest : List Goal) : g.First (goals ++ rest) k := by
  obtain ⟨behind, rewrites⟩ := h
  exact ⟨behind ++ rest, rewrites.lift (· ++ rest) fun _ _ step => step.append rest⟩

theorem First.expand (h : g.First (new ++ rest) k) (expands : g.Expands goal new) :
    g.First (goal :: rest) k := by
  obtain ⟨behind, rewrites⟩ := h
  exact ⟨behind, expands.rewrites_trans rewrites⟩

theorem First.pass (h : g.First rest k) (empty : g.Yields goal []) :
    g.First (goal :: rest) k := by
  obtain ⟨behind, rewrites⟩ := h
  exact ⟨behind, (empty.passed rfl rest).trans rewrites⟩

/-- What a symbol can begin with, a part made of it can begin with. -/
theorem First.part {s : Symbol} (h : g.First [.symbol s] k) (repeated : Repeat) :
    g.First [.part ⟨s, repeated⟩] k := by
  cases repeated with
  | once => exact h.expand (.once s)
  | optional => exact h.expand (.present s)
  | many =>
    have one : g.First ([.symbol s, .many s] ++ []) k := h.append [.many s]
    exact (one.expand (.manyCons s)).expand (.repeated s)
  | separated =>
    have one : g.First ([.symbol s, .further s] ++ []) k := h.append [.further s]
    exact one.expand (.separated s)

/-- What is derived from two goals begins like the first one, or like the second if the first is
empty. -/
theorem First.two {first second : Goal} {ks ls others : List Terminal}
    (yields : g.Yields first ks) (split : ks ++ ls = k :: others)
    (here : ∀ others, ks = k :: others → g.First [first] k)
    (there : ls = k :: others → g.First [second] k) : g.First [first, second] k := by
  cases ks with
  | nil => exact (there split).pass yields
  | cons l ks =>
    obtain ⟨rfl, -⟩ := List.cons.inj split
    exact (here ks rfl).append [second]

/-- What is derived from a goal begins with one of its first terminals. -/
theorem Yields.first {ks others : List Terminal} (h : g.Yields goal ks) (split : ks = k :: others) :
    g.First [goal] k := by
  induction h generalizing others with
  | terminal l =>
    obtain ⟨rfl, -⟩ := List.cons.inj split
    exact first_terminal l []
  | phrase mem body ih => exact (ih split).expand (.phrase mem)
  | nil => cases split
  | cons first rest ih₁ ih₂ =>
    exact (First.two first split (fun _ => ih₁) ih₂).expand (.cons _ _)
  | once one ih => exact (ih split).expand (.once _)
  | omitted s => cases split
  | present one ih => exact (ih split).expand (.present _)
  | repeated some ih => exact (ih split).expand (.repeated _)
  | noElement s => cases split
  | separated first rest ih₁ ih₂ =>
    exact (First.two first split (fun _ => ih₁) ih₂).expand (.separated _)
  | manyNil s => cases split
  | manyCons first rest ih₁ ih₂ =>
    exact (First.two first split (fun _ => ih₁) ih₂).expand (.manyCons _)
  | furtherNil s => cases split
  | furtherCons first rest ih₁ ih₂ =>
    obtain ⟨rfl, -⟩ := List.cons.inj split
    exact (first_terminal _ _).expand (.furtherCons _)

end Grammar

end TradeScript
