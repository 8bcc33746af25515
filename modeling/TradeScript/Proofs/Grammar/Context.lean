import Mathlib.Logic.Relation
import TradeScript.Proofs.Grammar.Derivation

/-!
# Decisive grammars

Where a symbol stands in a derivation, only certain sequences may follow it. `Grammar.Context` says
which languages of such sequences there are, starting with the empty sequence after a whole input.

A grammar is decisive (`Grammar.Decisive`) if at every place the next kind of token is enough to go
on: different alternatives begin differently, no further element of a repetition begins like what
follows the repetition, and an alternative that can take the next token may do so even where a
phrase could have been left empty.
-/

open Computability

namespace TradeScript

namespace Grammar

/-- What may follow an occurrence of the symbol of a part within that part. -/
def again (g : Grammar) (p : Part) : Language Terminal :=
  match p.repeated with
  | .once => 1
  | .optional => 1
  | .many => g.language (.many p.symbol)
  | .separated => g.language (.further p.symbol)

/-- The languages of what may follow a symbol. -/
inductive Context (g : Grammar) : Symbol → Language Terminal → Prop
  | whole (s : Symbol) : Context g s 1
  | within {n : NonTerminal} {a : Alternative} {p : Part} {others : List Part}
      {after : Language Terminal} (outer : Context g (.nonTerminal n) after)
      (mem : a ∈ g.alternatives n) (place : p :: others <:+ a) :
      Context g p.symbol (g.again p * (g.language (.parts others) * after))

/-- A phrase can stand at the front of some parts, after parts that stand for nothing. -/
def Opens (g : Grammar) (n : NonTerminal) : List Part → Prop
  | [] => False
  | p :: others => p.symbol = .nonTerminal n ∨ g.Yields (.part p) [] ∧ Opens g n others

/-- A phrase can begin with a phrase of another kind before any token. -/
def Front (g : Grammar) (m n : NonTerminal) : Prop :=
  ∃ a ∈ g.alternatives m, g.Opens n a

/-- A grammar in which the next kind of token tells how to go on. -/
structure Decisive (g : Grammar) : Prop where
  /-- Something can be derived from every phrase. -/
  productive (n : NonTerminal) : ∃ ks, g.Yields (.symbol (.nonTerminal n)) ks
  /-- No phrase begins with a phrase of its own kind. -/
  acyclic (n : NonTerminal) : ¬ Relation.TransGen g.Front n n
  /-- Two alternatives of a phrase do not begin with the same kind. -/
  disjoint {n : NonTerminal} {i j : Nat} {a b : Alternative} {k : Terminal} {ks ls : List Terminal}
    (at_i : (g.alternatives n)[i]? = some a) (at_j : (g.alternatives n)[j]? = some b)
    (here : k :: ks ∈ g.language (.parts a)) (there : k :: ls ∈ g.language (.parts b)) : i = j
  /-- Only the last alternative of a phrase can be empty. -/
  emptyLast {n : NonTerminal} {i : Nat} {a : Alternative}
    (at_i : (g.alternatives n)[i]? = some a) (empty : [] ∈ g.language (.parts a)) :
    i + 1 = (g.alternatives n).length
  /-- Where a phrase could be left empty, it may as well take a token that it can take. -/
  greedy {n : NonTerminal} {after : Language Terminal} {a b : Alternative} {k : Terminal}
    {ks ls : List Terminal} (context : g.Context (.nonTerminal n) after)
    (mem_a : a ∈ g.alternatives n) (mem_b : b ∈ g.alternatives n)
    (here : k :: ks ∈ g.language (.parts a)) (empty : [] ∈ g.language (.parts b))
    (next : k :: ls ∈ after) : k :: ls ∈ g.language (.parts a) * after
  /-- What may be missing does not begin like what follows it. -/
  apart {n : NonTerminal} {after : Language Terminal} {a : Alternative} {p : Part}
    {others : List Part} {k : Terminal} {ks ls : List Terminal}
    (context : g.Context (.nonTerminal n) after) (mem : a ∈ g.alternatives n)
    (place : p :: others <:+ a) (loose : p.repeated ≠ .once)
    (here : k :: ks ∈ g.language (.symbol p.symbol)) :
    k :: ls ∉ g.language (.parts others) * after
  /-- No comma follows a list. -/
  comma {n : NonTerminal} {after : Language Terminal} {a : Alternative} {p : Part}
    {others : List Part} {ls : List Terminal} (context : g.Context (.nonTerminal n) after)
    (mem : a ∈ g.alternatives n) (place : p :: others <:+ a) (list : p.repeated = .separated) :
    .mark .comma :: ls ∉ g.language (.parts others) * after
  /-- The elements of repetitions are not empty. -/
  element {n : NonTerminal} {a : Alternative} {p : Part} (mem : a ∈ g.alternatives n)
    (mem_p : p ∈ a) (loop : p.repeated = .many ∨ p.repeated = .separated) :
    [] ∉ g.language (.symbol p.symbol)

/-- Optional symbols are not empty. -/
def Definite (g : Grammar) : Prop :=
  ∀ {n : NonTerminal} {a : Alternative} {p : Part}, a ∈ g.alternatives n → p ∈ a →
    p.repeated = .optional → [] ∉ g.language (.symbol p.symbol)

variable {g : Grammar}

theorem Decisive.exists_mem (hg : g.Decisive) : ∀ goal, ∃ ks, ks ∈ g.language goal := by
  have symbol : ∀ s, ∃ ks, ks ∈ g.language (.symbol s) := by
    rintro (k | n)
    · exact ⟨[k], .terminal k⟩
    · exact hg.productive n
  have part : ∀ p, ∃ ks, ks ∈ g.language (.part p) := by
    rintro ⟨s, _ | _ | _ | _⟩
    · obtain ⟨ks, h⟩ := symbol s
      exact ⟨ks, .once h⟩
    · exact ⟨[], .omitted s⟩
    · exact ⟨[], .repeated (.manyNil s)⟩
    · exact ⟨[], .noElement s⟩
  have parts : ∀ ps, ∃ ks, ks ∈ g.language (.parts ps) := by
    intro ps
    induction ps with
    | nil => exact ⟨[], .nil⟩
    | cons p ps ih =>
      obtain ⟨ks, hp⟩ := part p
      obtain ⟨ls, hps⟩ := ih
      exact ⟨ks ++ ls, .cons hp hps⟩
  rintro (s | p | ps | s | s)
  · exact symbol s
  · exact part p
  · exact parts ps
  · exact ⟨[], .manyNil s⟩
  · exact ⟨[], .furtherNil s⟩

theorem Decisive.exists_mem_mul (hg : g.Decisive) (first second : Goal) :
    ∃ ks, ks ∈ g.language first * g.language second := by
  obtain ⟨ks, here⟩ := hg.exists_mem first
  obtain ⟨ls, there⟩ := hg.exists_mem second
  exact ⟨ks ++ ls, Language.append_mem_mul here there⟩

end Grammar

end TradeScript
