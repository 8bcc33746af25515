import TradeScript.Proofs.Tree.Decision
import TradeScript.Proofs.Tree.Soundness

/-!
# Reading all of some tokens

On a decisive grammar exactly the tokens whose kinds can be derived are read
(`Tree.exists_parse_eq_ok_iff`), and where they cannot be read the diagnostic is about the first
token that is impossible after those before it (`Tree.pointsAt_of_parse_eq_error`), or about the end
of the input if there is no such token (`Tree.pointsBehind_of_parse_eq_error`).
-/

open Computability

namespace TradeScript

open Grammar

namespace Diagnostic

/-- A diagnostic is about a token, which its text ends with. -/
def PointsAt (d : Diagnostic) (t : Token) : Prop :=
  d.start = t.start ∧ d.width = t.value.length ∧ ∃ before, d.text = before ++ "'" ++ t.value ++ "'"

/-- A diagnostic is about the end of some tokens. -/
def PointsBehind (d : Diagnostic) (tokens : List Token) : Prop :=
  (match tokens.getLast? with
    | some t => d.start = ⟨t.start.file, t.start.line, t.start.column + t.value.length⟩
    | none => d.start = ⟨"", 1, 1⟩) ∧
  ∃ before, d.text = before ++ "end of input"

end Diagnostic

namespace Grammar

variable {g : Grammar}

/-- The least place such that no phrase begins with the tokens up to it. -/
def FirstImpossible (g : Grammar) (n : NonTerminal) (tokens : List Token) (i : Nat) : Prop :=
  i < tokens.length ∧ ¬ g.Viable n ((tokens.take (i + 1)).map Token.kind) ∧
    ∀ j < i, g.Viable n ((tokens.take (j + 1)).map Token.kind)

theorem Viable.of_append {n : NonTerminal} {ks ls : List Terminal} (h : g.Viable n (ks ++ ls)) :
    g.Viable n ks := by
  obtain ⟨more, yields⟩ := h
  exact ⟨ls ++ more, by rwa [← List.append_assoc]⟩

theorem Viable.take {n : NonTerminal} {tokens : List Token}
    (h : g.Viable n (tokens.map Token.kind)) (i : Nat) :
    g.Viable n ((tokens.take i).map Token.kind) := by
  rw [← List.take_append_drop i tokens, List.map_append] at h
  exact h.of_append

theorem viable_of_not_firstImpossible {n : NonTerminal} {tokens : List Token}
    (h : ∀ i, ¬ g.FirstImpossible n tokens i) (i : Nat) (lt : i < tokens.length) :
    g.Viable n ((tokens.take (i + 1)).map Token.kind) := by
  induction i using Nat.strong_induction_on with
  | _ i ih =>
    by_contra impossible
    exact h i ⟨lt, impossible, fun j before => ih j before (before.trans lt)⟩

end Grammar

namespace Misfit

theorem exists_message_eq (misfit : Misfit) (found : String) :
    ∃ before, misfit.message found = before ++ found := by
  cases misfit with
  | expected symbol => exact ⟨_, rfl⟩
  | unexpected => exact ⟨_, rfl⟩

theorem diagnose_pointsAt (misfit : Misfit) (tokens : List Token) (t : Token)
    (rest : List Token) : (misfit.diagnose tokens (t :: rest)).PointsAt t := by
  obtain ⟨before, text⟩ := misfit.exists_message_eq ("'" ++ t.value ++ "'")
  refine ⟨rfl, rfl, before, ?_⟩
  calc misfit.message ("'" ++ t.value ++ "'") = before ++ ("'" ++ t.value ++ "'") := text
    _ = before ++ "'" ++ t.value ++ "'" := by simp only [String.append_assoc]

theorem diagnose_pointsBehind (misfit : Misfit) (tokens : List Token) :
    (misfit.diagnose tokens []).PointsBehind tokens := by
  refine ⟨?_, misfit.exists_message_eq "end of input"⟩
  cases last : tokens.getLast? with
  | none => simp [diagnose, last, Position.first]
  | some t => simp [diagnose, last, Token.stop, Position.advance, Token.width]

end Misfit

namespace Tree

variable {g : Grammar} {n : NonTerminal} {tokens : List Token}

/-- What is read is a reading whose phrases took the first alternative that fits. -/
theorem reads_of_parse_eq_ok {t : Tree} (h : parse g n tokens = .ok t) :
    g.Reads g.FirstFit (.symbol (.nonTerminal n)) tokens [t] [] := by
  have sound := Matching.phrase_fulfils g [] n tokens
  unfold parse at h
  split at h
  · cases h
  · cases h
  · next outcome =>
    cases h
    rw [outcome] at sound
    exact sound.1
  · cases h

theorem exists_parse_eq_ok_iff (hg : g.Decisive) :
    (∃ t, parse g n tokens = .ok t) ↔
      g.Yields (.symbol (.nonTerminal n)) (tokens.map Token.kind) := by
  constructor
  · rintro ⟨t, h⟩
    obtain ⟨taken, split, yields⟩ := (reads_of_parse_eq_ok h).yields
    rwa [split, List.append_nil]
  · intro yields
    have decides := Matching.phrase_decides hg [] n tokens (.whole _) (by simp)
    have mem : tokens.map Token.kind ∈ g.language (.symbol (.nonTerminal n)) * 1 := by
      rwa [mul_one]
    unfold parse
    split
    · next outcome =>
      rw [outcome] at decides
      exact absurd mem (decides.2 _ (ahead_map tokens))
    · next misfit rest outcome =>
      rw [outcome] at decides
      obtain ⟨taken, rfl, -, -, stops⟩ := decides
      rw [List.map_append] at mem
      exact absurd mem (stops _ (ahead_map rest))
    · exact ⟨_, rfl⟩
    · next next rest moved le outcome =>
      rw [outcome] at decides
      obtain ⟨taken, rfl, -, -, goes_on⟩ := decides
      rw [List.map_append] at mem
      have done := goes_on _ (ahead_map _) mem
      simp [Language.mem_one] at done

/-- Where reading stops, the tokens so far can be continued, but not by the next one. -/
theorem stop_of_parse_eq_error (hg : g.Decisive) {d : Diagnostic}
    (h : parse g n tokens = .error d) : ∃ misfit taken rest, tokens = taken ++ rest ∧
      d = Misfit.diagnose misfit tokens rest ∧ g.Viable n (taken.map Token.kind) ∧
      ∀ t others, rest = t :: others → ¬ g.Viable n ((taken ++ [t]).map Token.kind) := by
  have decides := Matching.phrase_decides hg [] n tokens (.whole _) (by simp)
  unfold parse at h
  split at h
  · next outcome =>
    cases h
    rw [outcome] at decides
    refine ⟨_, [], tokens, rfl, rfl, hg.productive n, ?_⟩
    rintro t others rfl ⟨ks, yields⟩
    exact decides.2 _ (ahead_cons t ks others) (by rw [mul_one]; exact yields)
  · next misfit rest outcome =>
    cases h
    rw [outcome] at decides
    obtain ⟨taken, split, -, viable, stops⟩ := decides
    refine ⟨misfit, taken, rest, split, rfl, viable, ?_⟩
    rintro t others rfl ⟨ks, yields⟩
    rw [List.map_append, List.append_assoc] at yields
    exact stops _ (ahead_cons t ks others) (by rw [mul_one]; exact yields)
  · cases h
  · next next rest moved le outcome =>
    cases h
    rw [outcome] at decides
    obtain ⟨taken, split, -, complete, goes_on⟩ := decides
    refine ⟨_, taken, next :: rest, split, rfl, ⟨[], by rwa [List.append_nil]⟩, ?_⟩
    rintro t others same ⟨ks, yields⟩
    obtain ⟨rfl, rfl⟩ := List.cons.inj same
    rw [List.map_append, List.append_assoc] at yields
    have done := goes_on _ (ahead_cons next ks rest) (by rw [mul_one]; exact yields)
    rw [Language.mem_one] at done
    cases done

theorem pointsAt_of_parse_eq_error (hg : g.Decisive) {d : Diagnostic}
    (h : parse g n tokens = .error d) {i : Nat} (first : g.FirstImpossible n tokens i) {t : Token}
    (at_i : tokens[i]? = some t) : d.PointsAt t := by
  obtain ⟨misfit, taken, rest, rfl, rfl, viable, stops⟩ := stop_of_parse_eq_error hg h
  obtain ⟨lt, impossible, before⟩ := first
  have not_before : taken.length ≤ i := by
    by_contra early
    rw [List.take_append_of_le_length (by omega)] at impossible
    exact impossible (viable.take _)
  have not_after : i ≤ taken.length := by
    by_contra late
    cases rest with
    | nil => simp at lt; omega
    | cons next rest =>
      have still := before taken.length (by omega)
      rw [List.take_length_add_append] at still
      exact stops next rest rfl still
  obtain rfl : i = taken.length := by omega
  cases rest with
  | nil => simp at at_i
  | cons next rest =>
    obtain rfl : next = t := by simpa using at_i
    exact misfit.diagnose_pointsAt _ _ _

theorem pointsBehind_of_parse_eq_error (hg : g.Decisive) {d : Diagnostic}
    (h : parse g n tokens = .error d) (none_first : ∀ i, ¬ g.FirstImpossible n tokens i) :
    d.PointsBehind tokens := by
  have all := viable_of_not_firstImpossible none_first
  obtain ⟨misfit, taken, rest, rfl, rfl, -, stops⟩ := stop_of_parse_eq_error hg h
  cases rest with
  | nil => exact misfit.diagnose_pointsBehind _
  | cons next rest =>
    have still := all taken.length (by simp)
    rw [List.take_length_add_append] at still
    exact absurd still (stops next rest rfl)

end Tree

end TradeScript
