import Mathlib.Computability.Language
import TradeScript.Grammar

/-!
# Derivations

A grammar read as a context-free one: `Grammar.Yields` says which sequences of kinds can be derived
from a symbol, a part or an alternative. An optional symbol stands for none or one, a repeated one
for any number, and a separated one for any number with a comma between neighbours.

The sequences derivable from one goal form its language (`Grammar.language`), and the languages of
a grammar are given by one equation for each kind of goal (`language_nil`, …, `language_further`).
-/

open Computability

namespace TradeScript

/-- What sequences are derived from: a symbol, a part, the parts of an alternative, or what may
still be added to a repetition, without and with commas. -/
inductive Goal
  | symbol (s : Symbol)
  | part (p : Part)
  | parts (ps : List Part)
  | many (s : Symbol)
  | further (s : Symbol)

namespace Grammar

/-- The sequences of kinds that can be derived from a goal. -/
inductive Yields (g : Grammar) : Goal → List Terminal → Prop
  | terminal (k : Terminal) : Yields g (.symbol (.terminal k)) [k]
  | phrase {n : NonTerminal} {a : Alternative} {ks : List Terminal} (mem : a ∈ g.alternatives n)
      (body : Yields g (.parts a) ks) : Yields g (.symbol (.nonTerminal n)) ks
  | nil : Yields g (.parts []) []
  | cons {p : Part} {ps : List Part} {ks ls : List Terminal} (first : Yields g (.part p) ks)
      (rest : Yields g (.parts ps) ls) : Yields g (.parts (p :: ps)) (ks ++ ls)
  | once {s : Symbol} {ks : List Terminal} (one : Yields g (.symbol s) ks) :
      Yields g (.part ⟨s, .once⟩) ks
  | omitted (s : Symbol) : Yields g (.part ⟨s, .optional⟩) []
  | present {s : Symbol} {ks : List Terminal} (one : Yields g (.symbol s) ks) :
      Yields g (.part ⟨s, .optional⟩) ks
  | repeated {s : Symbol} {ks : List Terminal} (some : Yields g (.many s) ks) :
      Yields g (.part ⟨s, .many⟩) ks
  | noElement (s : Symbol) : Yields g (.part ⟨s, .separated⟩) []
  | separated {s : Symbol} {ks ls : List Terminal} (first : Yields g (.symbol s) ks)
      (rest : Yields g (.further s) ls) : Yields g (.part ⟨s, .separated⟩) (ks ++ ls)
  | manyNil (s : Symbol) : Yields g (.many s) []
  | manyCons {s : Symbol} {ks ls : List Terminal} (first : Yields g (.symbol s) ks)
      (rest : Yields g (.many s) ls) : Yields g (.many s) (ks ++ ls)
  | furtherNil (s : Symbol) : Yields g (.further s) []
  | furtherCons {s : Symbol} {ks ls : List Terminal} (first : Yields g (.symbol s) ks)
      (rest : Yields g (.further s) ls) :
      Yields g (.further s) (.mark .comma :: (ks ++ ls))

/-- The language of a goal: the sequences that can be derived from it. -/
def language (g : Grammar) (goal : Goal) : Language Terminal :=
  {ks | g.Yields goal ks}

/-- A sequence of kinds that begins some sequence derivable from a phrase. -/
def Viable (g : Grammar) (n : NonTerminal) (ks : List Terminal) : Prop :=
  ∃ ls, g.Yields (.symbol (.nonTerminal n)) (ks ++ ls)

variable {g : Grammar}

/-! ## One equation for each goal -/

theorem language_terminal (k : Terminal) : g.language (.symbol (.terminal k)) = {[k]} := by
  ext ks
  constructor
  · rintro ⟨⟩
    rfl
  · rintro rfl
    exact .terminal k

theorem mem_language_phrase {n : NonTerminal} {ks : List Terminal} :
    ks ∈ g.language (.symbol (.nonTerminal n)) ↔
      ∃ a ∈ g.alternatives n, ks ∈ g.language (.parts a) := by
  constructor
  · intro h
    cases h with
    | phrase mem body => exact ⟨_, mem, body⟩
  · rintro ⟨a, mem, body⟩
    exact .phrase mem body

theorem mem_language_phrase_mul {n : NonTerminal} {after : Language Terminal}
    {ks : List Terminal} : ks ∈ g.language (.symbol (.nonTerminal n)) * after ↔
      ∃ a ∈ g.alternatives n, ks ∈ g.language (.parts a) * after := by
  simp only [Language.mem_mul, mem_language_phrase]
  constructor
  · rintro ⟨front, ⟨a, mem, body⟩, back, rest, rfl⟩
    exact ⟨a, mem, front, body, back, rest, rfl⟩
  · rintro ⟨a, mem, front, body, back, rest, rfl⟩
    exact ⟨front, ⟨a, mem, body⟩, back, rest, rfl⟩

theorem language_nil : g.language (.parts []) = 1 := by
  ext ks
  rw [Language.mem_one]
  constructor
  · rintro ⟨⟩
    rfl
  · rintro rfl
    exact .nil

theorem language_cons (p : Part) (ps : List Part) :
    g.language (.parts (p :: ps)) = g.language (.part p) * g.language (.parts ps) := by
  ext ks
  rw [Language.mem_mul]
  constructor
  · intro h
    cases h with
    | cons first rest => exact ⟨_, first, _, rest, rfl⟩
  · rintro ⟨_, first, _, rest, rfl⟩
    exact .cons first rest

theorem language_once (s : Symbol) :
    g.language (.part ⟨s, .once⟩) = g.language (.symbol s) := by
  ext ks
  constructor
  · intro h
    cases h with
    | once one => exact one
  · exact .once

theorem language_optional (s : Symbol) :
    g.language (.part ⟨s, .optional⟩) = 1 + g.language (.symbol s) := by
  ext ks
  rw [Language.mem_add, Language.mem_one]
  constructor
  · intro h
    cases h with
    | omitted => exact .inl rfl
    | present one => exact .inr one
  · rintro (rfl | one)
    · exact .omitted s
    · exact .present one

theorem language_repeated (s : Symbol) :
    g.language (.part ⟨s, .many⟩) = g.language (.many s) := by
  ext ks
  constructor
  · intro h
    cases h with
    | repeated some => exact some
  · exact .repeated

theorem language_separated (s : Symbol) :
    g.language (.part ⟨s, .separated⟩) =
      1 + g.language (.symbol s) * g.language (.further s) := by
  ext ks
  rw [Language.mem_add, Language.mem_one, Language.mem_mul]
  constructor
  · intro h
    cases h with
    | noElement => exact .inl rfl
    | separated first rest => exact .inr ⟨_, first, _, rest, rfl⟩
  · rintro (rfl | ⟨_, first, _, rest, rfl⟩)
    · exact .noElement s
    · exact .separated first rest

theorem language_many (s : Symbol) :
    g.language (.many s) = 1 + g.language (.symbol s) * g.language (.many s) := by
  ext ks
  rw [Language.mem_add, Language.mem_one, Language.mem_mul]
  constructor
  · intro h
    cases h with
    | manyNil => exact .inl rfl
    | manyCons first rest => exact .inr ⟨_, first, _, rest, rfl⟩
  · rintro (rfl | ⟨_, first, _, rest, rfl⟩)
    · exact .manyNil s
    · exact .manyCons first rest

theorem language_further (s : Symbol) :
    g.language (.further s) =
      1 + {[.mark .comma]} * (g.language (.symbol s) * g.language (.further s)) := by
  ext ks
  rw [Language.mem_add, Language.mem_one, Language.mem_mul]
  constructor
  · intro h
    cases h with
    | furtherNil => exact .inl rfl
    | furtherCons first rest => exact .inr ⟨_, rfl, _, Language.append_mem_mul first rest, rfl⟩
  · rintro (rfl | ⟨_, rfl, _, ⟨_, first, _, rest, rfl⟩, rfl⟩)
    · exact .furtherNil s
    · have whole : g.Yields (.further s) (.mark .comma :: (_ ++ _)) := .furtherCons first rest
      exact whole

end Grammar

end TradeScript
