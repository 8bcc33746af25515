import TradeScript.Proofs.Grammar.Checked
import TradeScript.Proofs.Tree.Soundness

/-!
# One token of lookahead

The alternatives of a phrase are tried in order, and the first one that matches is kept, also if it
matches nothing. The check of a grammar moves an empty alternative to the end, but not one whose
parts may all be missing. On a checked grammar the next token therefore tells which alternative a
phrase takes just if no alternative that can match nothing stands before one that can begin with a
token (`Grammar.SkipsLast`): this is `Matching.one_token_decides_iff`. In every case an alternative
that takes a token is the one that begins with it.

The proof follows the matcher and says of each attempt what the token at hand tells about it
(`Outcome.Heeds`).
-/

namespace TradeScript

open Grammar

namespace Grammar

/-- No alternative that can match nothing stands before one that can begin with a token. -/
def SkipsLast (g : Grammar) : Prop :=
  ∀ r ∈ g.rules, r.2.Pairwise fun a b => a.all (skippable g.nullable) = true → g.firstOf b = []

/-- The token at hand can begin a match of a goal, by the table. -/
def Starts (g : Grammar) (goal : Goal) (tokens : List Token) : Prop :=
  ∃ t ∈ tokens.head?, g.Begins goal t.kind

variable {g : Grammar} {tokens : List Token}

theorem SkipsLast.pairwise (h : g.SkipsLast) (n : NonTerminal) :
    (g.alternatives n).Pairwise fun a b =>
      g.Skips (.parts a) → ∀ k, ¬ g.Begins (.parts b) k := by
  by_cases some : ∃ a, a ∈ g.alternatives n
  · obtain ⟨a, mem⟩ := some
    refine (h _ (rule_of_mem_alternatives mem)).imp fun {a b} last skips k begins => ?_
    have found := mem_firstOf.2 begins
    rw [last skips] at found
    cases found
  · rw [List.eq_nil_iff_forall_not_mem.2 fun a mem => some ⟨a, mem⟩]
    exact .nil

/-! ## What can start a goal -/

theorem starts_of_yields (hg : g.Checked) {goal : Goal} (own : g.Solid goal) {rest : List Token}
    {taken : List Token} (some : taken ≠ [])
    (yields : g.Yields goal (taken.map Token.kind)) : g.Starts goal (taken ++ rest) := by
  cases taken with
  | nil => exact absurd rfl some
  | cons t taken => exact ⟨t, rfl, hg.begins yields own⟩

theorem not_starts_nil : ¬ g.Starts (.parts []) tokens := by
  rintro ⟨t, -, begins⟩
  exact Subset.not_mem_empty _ begins

theorem starts_cons_iff {p : Part} {ps : List Part} : g.Starts (.parts (p :: ps)) tokens ↔
    g.Starts (.part p) tokens ∨ g.Skips (.part p) ∧ g.Starts (.parts ps) tokens := by
  have begins_iff (k : Terminal) : g.Begins (.parts (p :: ps)) k ↔
      g.Begins (.part p) k ∨ g.Skips (.part p) ∧ g.Begins (.parts ps) k := by
    unfold Begins Skips
    simp only [Fronts.mem_ofSymbols, leaders, mem_leading_cons, List.mem_singleton]
    constructor
    · rintro ((here | ⟨skips, here⟩) | ⟨n, here | ⟨skips, here⟩, deeper⟩)
      · exact .inl (.inl here)
      · exact .inr ⟨skips, .inl here⟩
      · exact .inl (.inr ⟨n, here, deeper⟩)
      · exact .inr ⟨skips, .inr ⟨n, here, deeper⟩⟩
    · rintro ((here | ⟨n, here, deeper⟩) | ⟨skips, here | ⟨n, here, deeper⟩⟩)
      · exact .inl (.inl here)
      · exact .inr ⟨n, .inl here, deeper⟩
      · exact .inl (.inr ⟨skips, here⟩)
      · exact .inr ⟨n, .inr ⟨skips, here⟩, deeper⟩
  constructor
  · rintro ⟨t, here, begins⟩
    rcases (begins_iff _).1 begins with begins | ⟨skips, begins⟩
    · exact .inl ⟨t, here, begins⟩
    · exact .inr ⟨skips, t, here, begins⟩
  · rintro (⟨t, here, begins⟩ | ⟨skips, t, here, begins⟩)
    · exact ⟨t, here, (begins_iff _).2 (.inl begins)⟩
    · exact ⟨t, here, (begins_iff _).2 (.inr ⟨skips, begins⟩)⟩

theorem skips_cons_iff {p : Part} {ps : List Part} :
    g.Skips (.parts (p :: ps)) ↔ g.Skips (.part p) ∧ g.Skips (.parts ps) := by
  show (p :: ps).all (skippable g.nullable) = true ↔ _
  rw [List.all_cons, Bool.and_eq_true]
  rfl

theorem begins_phrase_iff (hd : g.Distinct) {n : NonTerminal} {k : Terminal} :
    g.Begins (.symbol (.nonTerminal n)) k ↔ ∃ a ∈ g.alternatives n, g.Begins (.parts a) k := by
  unfold Begins leaders
  rw [← hd.mem_fronts_iff, Fronts.mem_ofSymbols]
  simp

theorem starts_phrase_iff (hd : g.Distinct) {n : NonTerminal} :
    g.Starts (.symbol (.nonTerminal n)) tokens ↔
      ∃ a ∈ g.alternatives n, g.Starts (.parts a) tokens := by
  constructor
  · rintro ⟨t, here, begins⟩
    obtain ⟨a, mem, begins⟩ := (begins_phrase_iff hd).1 begins
    exact ⟨a, mem, t, here, begins⟩
  · rintro ⟨a, mem, t, here, begins⟩
    exact ⟨t, here, (begins_phrase_iff hd).2 ⟨a, mem, begins⟩⟩

theorem skips_phrase_iff (hd : g.Distinct) {n : NonTerminal} :
    g.Skips (.symbol (.nonTerminal n)) ↔ ∃ a ∈ g.alternatives n, g.Skips (.parts a) := by
  constructor
  · exact hd.exists_skippable
  · rintro ⟨a, mem, skips⟩
    have here : g.nullable.contains n = true :=
      hd.surveyed.nullable _ (rule_of_mem_alternatives mem) (List.any_eq_true.2 ⟨a, mem, skips⟩)
    exact here

/-- Alternatives of one phrase do not start with the same token. -/
theorem Checked.eq_of_starts (hg : g.Checked) {n : NonTerminal} {i j : Nat} {a b : Alternative}
    (at_i : (g.alternatives n)[i]? = some a) (at_j : (g.alternatives n)[j]? = some b)
    (here : g.Starts (.parts a) tokens) (there : g.Starts (.parts b) tokens) : i = j := by
  obtain ⟨t, head, begins⟩ := here
  obtain ⟨u, head', begins'⟩ := there
  obtain rfl : t = u := Option.mem_unique head head'
  exact hg.eq_of_begins at_i at_j begins begins'

end Grammar

/-- What the token at hand tells about an attempt to match a goal. An attempt that fails or takes
tokens was made at a token that can begin a match, and a goal that can be skipped is not rejected. If
alternatives that match nothing come last, a token that can begin a match is taken. -/
def Outcome.Heeds {α : Type} {tokens : List Token} (g : Grammar) (goal : Goal) :
    Outcome α tokens → Prop
  | rejected => ¬ g.Skips goal ∧ (g.SkipsLast → ¬ g.Starts goal tokens)
  | failed _ _ => g.Starts goal tokens
  | matched _ _ true _ => g.Starts goal tokens
  | matched _ _ false _ => g.Skips goal ∧ (g.SkipsLast → ¬ g.Starts goal tokens)

/-- An attempt to match a phrase takes the given alternative or reports an error. -/
def Outcome.TakenBy {tokens : List Token} (j : Nat) : Outcome Tree tokens → Prop
  | rejected => False
  | failed _ _ => True
  | matched t _ _ _ => t.choice = j

namespace Matching

variable {g : Grammar}

/-! ## Attempts that do not reject -/

theorem further_ne_rejected (s : Symbol) (tokens : List Token) :
    further g s tokens ≠ .rejected := by
  rw [further.eq_def]
  cases tokens with
  | nil => simp
  | cons comma tokens =>
    dsimp only
    split
    · cases outcome : symbol g [] s tokens with
      | rejected => simp
      | failed misfit rest => simp
      | matched t middle moved le =>
        have more := further_ne_rejected s middle
        dsimp only
        cases outcome' : further g s middle with
        | rejected => exact absurd outcome' more
        | failed misfit rest => simp
        | matched others rest moved' le' => simp
    · simp
  termination_by tokens.length
  decreasing_by
    exact Nat.lt_succ_of_le (length_le_of_matched le)

theorem many_ne_rejected (entered : List NonTerminal) (s : Symbol) (tokens : List Token) :
    many g entered s tokens ≠ .rejected := by
  rw [many]
  cases outcome : symbol g entered s tokens with
  | rejected => simp
  | failed misfit rest => simp
  | matched t middle moved le =>
    cases moved with
    | false => simp
    | true =>
      have more := many_ne_rejected [] s middle
      dsimp only
      cases outcome' : many g [] s middle with
      | rejected => exact absurd outcome' more
      | failed misfit rest => simp
      | matched others rest moved' le' => simp
  termination_by tokens.length
  decreasing_by
    exact le

theorem part_ne_rejected (entered : List NonTerminal) (p : Part) (tokens : List Token) :
    part g entered true p tokens ≠ .rejected := by
  obtain ⟨s, repeated⟩ := p
  rw [part]
  cases repeated with
  | once => cases symbol g entered s tokens <;> simp
  | optional => cases symbol g entered s tokens <;> simp
  | many => exact many_ne_rejected entered s tokens
  | separated =>
    cases symbol g entered s tokens with
    | rejected => simp
    | failed misfit rest => simp
    | matched t middle moved le =>
      have more := further_ne_rejected (g := g) s middle
      dsimp only
      cases outcome' : further g s middle with
      | rejected => exact absurd outcome' more
      | failed misfit rest => simp
      | matched others rest moved' le' => simp

/-- A committed alternative is not passed over. -/
theorem parts_ne_rejected (entered : List NonTerminal) (ps : List Part) (tokens : List Token) :
    parts g entered true ps tokens ≠ .rejected := by
  induction ps generalizing entered tokens with
  | nil =>
    rw [parts]
    simp
  | cons p others ih =>
    rw [parts]
    have first := part_ne_rejected (g := g) entered p tokens
    cases outcome : part g entered true p tokens with
    | rejected => exact absurd outcome first
    | failed misfit rest => simp
    | matched front middle moved le =>
      have second : parts g (enteredAfter moved entered) (true || moved) others middle ≠ .rejected :=
        ih (enteredAfter moved entered) middle
      dsimp only
      cases outcome' : parts g (enteredAfter moved entered) (true || moved) others middle with
      | rejected => exact absurd outcome' second
      | failed misfit rest => simp
      | matched back rest moved' le' => simp

/-! ## What the token at hand tells -/

theorem many_heeds {entered : List NonTerminal} {s : Symbol} {tokens : List Token}
    (first : (symbol g entered s tokens).Heeds g (.symbol s)) :
    (many g entered s tokens).Heeds g (.part ⟨s, .many⟩) := by
  rw [many]
  revert first
  cases symbol g entered s tokens with
  | rejected => exact fun first => ⟨rfl, first.2⟩
  | failed misfit rest => exact id
  | matched t middle moved le =>
    intro first
    cases moved with
    | false => exact ⟨rfl, first.2⟩
    | true =>
      have more := many_ne_rejected (g := g) [] s middle
      dsimp only
      cases outcome : many g [] s middle with
      | rejected => exact absurd outcome more
      | failed misfit rest => exact first
      | matched others rest moved' le' => exact first

theorem part_heeds {entered : List NonTerminal} {p : Part} {tokens : List Token}
    (own : g.Solid (.part p)) (first : (symbol g entered p.symbol tokens).Heeds g (.symbol p.symbol)) :
    (part g entered false p tokens).Heeds g (.part p) := by
  obtain ⟨s, repeated⟩ := p
  rw [part]
  cases repeated with
  | many => exact many_heeds first
  | once =>
    dsimp only at first ⊢
    revert first
    cases symbol g entered s tokens with
    | rejected =>
      intro first
      refine ⟨fun skips => first.1 ?_, first.2⟩
      cases s with
      | terminal k => cases skips
      | nonTerminal n => simpa [Skips, skippable, Subset.mem_iff] using skips
    | failed misfit rest => exact id
    | matched t rest moved le =>
      intro first
      cases moved with
      | true => exact first
      | false => exact ⟨skippable_of_skips (p := ⟨s, .once⟩) first.1, first.2⟩
  | optional =>
    dsimp only at first ⊢
    revert first
    cases symbol g entered s tokens with
    | rejected => exact fun first => ⟨rfl, first.2⟩
    | failed misfit rest => exact id
    | matched t rest moved le =>
      intro first
      cases moved with
      | true => exact first
      | false => exact ⟨rfl, first.2⟩
  | separated =>
    dsimp only at first ⊢
    revert first
    cases symbol g entered s tokens with
    | rejected => exact fun first => ⟨rfl, first.2⟩
    | failed misfit rest => exact id
    | matched t middle moved le =>
      intro first
      cases moved with
      | false => exact absurd first.1 (not_skips_of_solid (.inr rfl) own)
      | true =>
        have more := further_ne_rejected (g := g) s middle
        dsimp only
        cases outcome : further g s middle with
        | rejected => exact absurd outcome more
        | failed misfit rest => exact first
        | matched others rest moved' le' => exact first

/-- What is told about the first part and, if it takes no token, about the others is told about all
of them. -/
theorem parts_heeds_cons {entered : List NonTerminal} {p : Part} {ps : List Part}
    {tokens : List Token} (first : (part g entered false p tokens).Heeds g (.part p))
    (others : g.Yields (.part p) [] → (parts g entered false ps tokens).Heeds g (.parts ps)) :
    (parts g entered false (p :: ps) tokens).Heeds g (.parts (p :: ps)) := by
  rw [parts]
  cases outcome : part g entered false p tokens with
  | rejected =>
    rw [outcome] at first
    refine ⟨fun skips => first.1 (skips_cons_iff.1 skips).1, fun last starts => ?_⟩
    rcases starts_cons_iff.1 starts with here | ⟨skips, -⟩
    · exact first.2 last here
    · exact first.1 skips
  | failed misfit rest =>
    rw [outcome] at first
    exact starts_cons_iff.2 (.inl first)
  | matched front middle moved le =>
    rw [outcome] at first
    cases moved with
    | true =>
      have starts : g.Starts (.parts (p :: ps)) tokens := starts_cons_iff.2 (.inl first)
      have committed := parts_ne_rejected (g := g) [] ps middle
      dsimp only
      cases outcome' : parts g (enteredAfter true entered) (false || true) ps middle with
      | rejected => exact absurd outcome' committed
      | failed misfit rest => exact starts
      | matched back rest moved' le' => exact starts
    | false =>
      obtain ⟨rfl, empty⟩ := yields_part_of_still outcome
      obtain ⟨skips, missed⟩ := first
      have more : (parts g (enteredAfter false entered) (false || false) ps middle).Heeds g
          (.parts ps) := others empty
      have kept (h : g.SkipsLast → ¬ g.Starts (.parts ps) middle) (last : g.SkipsLast) :
          ¬ g.Starts (.parts (p :: ps)) middle := by
        intro starts
        rcases starts_cons_iff.1 starts with here | ⟨-, there⟩
        · exact missed last here
        · exact h last there
      dsimp only
      revert more
      cases parts g (enteredAfter false entered) (false || false) ps middle with
      | rejected => exact fun more => ⟨fun all => more.1 (skips_cons_iff.1 all).2, kept more.2⟩
      | failed misfit rest => exact fun more => starts_cons_iff.2 (.inr ⟨skips, more⟩)
      | matched back rest moved' le' =>
        intro more
        cases moved' with
        | true => exact starts_cons_iff.2 (.inr ⟨skips, more⟩)
        | false => exact ⟨skips_cons_iff.2 ⟨skips, more.1⟩, kept more.2⟩

theorem symbol_heeds {entered : List NonTerminal} {s : Symbol} {tokens : List Token}
    (inner : ∀ n, s = .nonTerminal n →
      (phrase g entered n tokens).Heeds g (.symbol (.nonTerminal n))) :
    (symbol g entered s tokens).Heeds g (.symbol s) := by
  rw [symbol.eq_def]
  cases s with
  | nonTerminal n => exact inner n rfl
  | terminal k =>
    have begins_iff (l : Terminal) : g.Begins (.symbol (.terminal k)) l ↔ l = k := by
      unfold Begins leaders
      rw [Fronts.mem_ofSymbols]
      simp
    cases tokens with
    | nil =>
      refine ⟨id, fun _ starts => ?_⟩
      obtain ⟨t, absent, -⟩ := starts
      cases absent
    | cons t rest =>
      dsimp only
      split
      · next kind => exact ⟨t, rfl, (begins_iff _).2 kind⟩
      · next other =>
        refine ⟨id, fun _ starts => ?_⟩
        obtain ⟨u, head, begins⟩ := starts
        obtain rfl := Option.some.inj head
        exact other ((begins_iff _).1 begins)

theorem parts_heeds {entered : List NonTerminal} {ps : List Part} {tokens : List Token}
    (own : g.Solid (.parts ps))
    (inner : ∀ n, g.Opens n ps → (phrase g entered n tokens).Heeds g (.symbol (.nonTerminal n))) :
    (parts g entered false ps tokens).Heeds g (.parts ps) := by
  induction ps with
  | nil =>
    rw [parts]
    exact ⟨rfl, fun _ => not_starts_nil⟩
  | cons p ps ih =>
    obtain ⟨own_p, own_ps⟩ := List.forall_mem_cons.1 own
    refine parts_heeds_cons ?_ fun empty => ih own_ps fun n opens => inner n (.inr ⟨empty, opens⟩)
    exact part_heeds own_p (symbol_heeds fun n is_n => inner n (.inl is_n))

theorem alternatives_heeds (hd : g.Distinct) {entered : List NonTerminal} {n : NonTerminal}
    {tokens : List Token}
    (inner : ∀ a ∈ g.alternatives n, (parts g entered false a tokens).Heeds g (.parts a))
    (tried untried : List Alternative) (all : g.alternatives n = tried ++ untried)
    (past : ∀ a ∈ tried, ¬ g.Skips (.parts a) ∧ (g.SkipsLast → ¬ g.Starts (.parts a) tokens)) :
    (alternatives g entered n tried.length untried tokens).Heeds g (.symbol (.nonTerminal n)) := by
  induction untried generalizing tried with
  | nil =>
    rw [List.append_nil] at all
    rw [alternatives]
    refine ⟨fun skips => ?_, fun last starts => ?_⟩
    · obtain ⟨a, mem, skips⟩ := (skips_phrase_iff hd).1 skips
      exact (past a (all ▸ mem)).1 skips
    · obtain ⟨a, mem, starts⟩ := (starts_phrase_iff hd).1 starts
      exact (past a (all ▸ mem)).2 last starts
  | cons a others ih =>
    have mem : a ∈ g.alternatives n := by simp [all]
    have body := inner a mem
    rw [alternatives]
    revert body
    cases parts g entered false a tokens with
    | rejected =>
      intro body
      have next := ih (tried ++ [a]) (by simp [all])
        (List.forall_mem_append.2 ⟨past, List.forall_mem_singleton.2 body⟩)
      simpa using next
    | failed misfit rest => exact fun body => (starts_phrase_iff hd).2 ⟨a, mem, body⟩
    | matched children rest moved le =>
      intro body
      cases moved with
      | true => exact (starts_phrase_iff hd).2 ⟨a, mem, body⟩
      | false =>
        refine ⟨(skips_phrase_iff hd).2 ⟨a, mem, body.1⟩, fun last starts => ?_⟩
        obtain ⟨b, mem_b, starts⟩ := (starts_phrase_iff hd).1 starts
        have order := last.pairwise n
        rw [all] at mem_b order
        rcases List.mem_append.1 mem_b with before | behind
        · exact (past b before).2 last starts
        · rcases List.mem_cons.1 behind with rfl | behind
          · exact body.2 last starts
          · obtain ⟨t, -, begins⟩ := starts
            have later := (List.pairwise_cons.1 (List.pairwise_append.1 order).2.1).1
            exact later b behind body.1 _ begins

/-- At every place the token at hand tells whether a phrase can be matched. -/
theorem phrase_heeds (hg : g.Checked) (entered : List NonTerminal)
    (n : NonTerminal) (tokens : List Token)
    (fronts : ∀ e ∈ entered, Relation.TransGen g.Front e n) :
    (phrase g entered n tokens).Heeds g (.symbol (.nonTerminal n)) := by
  have new : n ∉ entered := fun mem => hg.acyclic n (fronts n mem)
  rw [phrase, dif_neg new]
  refine alternatives_heeds hg.distinct (fun a mem => ?_) [] (g.alternatives n) rfl (by simp)
  refine parts_heeds (hg.solid mem) fun m opens => ?_
  have front : g.Front n m := ⟨a, mem, opens⟩
  refine phrase_heeds hg (n :: entered) m tokens ?_
  rw [List.forall_mem_cons]
  exact ⟨.single front, fun e he => (fronts e he).tail front⟩
  termination_by unentered entered
  decreasing_by exact unentered_cons_lt new

/-! ## Which alternative is taken -/

theorem starts_of_moved (hg : g.Checked) {entered : List NonTerminal} {n : NonTerminal}
    {tokens rest : List Token} {t : Tree} {le : rest.length + true.toNat ≤ tokens.length}
    (matched : phrase g entered n tokens = .matched t rest true le) :
    ∃ a, (g.alternatives n)[t.choice]? = some a ∧ g.Starts (.parts a) tokens := by
  have sound := phrase_fulfils g entered n tokens
  rw [matched] at sound
  obtain ⟨reads, -⟩ := sound
  cases reads with
  | @phrase _ choice a _ _ children chosen body kept =>
    refine ⟨a, chosen, ?_⟩
    obtain ⟨taken, rfl, yields⟩ := body.yields
    refine starts_of_yields hg (hg.solid (List.mem_of_getElem? chosen)) ?_ yields
    rintro rfl
    exact Nat.not_succ_le_self _ le

theorem yields_phrase_of_still {entered : List NonTerminal} {n : NonTerminal}
    {tokens rest : List Token} {t : Tree} {le : rest.length + false.toNat ≤ tokens.length}
    (matched : phrase g entered n tokens = .matched t rest false le) :
    rest = tokens ∧ ∃ a, (g.alternatives n)[t.choice]? = some a ∧ g.Yields (.parts a) [] := by
  have sound := phrase_fulfils g entered n tokens
  rw [matched] at sound
  obtain ⟨reads, still⟩ := sound
  obtain rfl := still rfl
  cases reads with
  | @phrase _ choice a _ _ children chosen body kept =>
    obtain ⟨taken, split, yields⟩ := body.yields
    obtain rfl : taken = [] := by simpa using split
    exact ⟨rfl, a, chosen, yields⟩

/-- A token that can begin an alternative decides for it, if alternatives that match nothing come
last. -/
theorem takenBy_of_starts (hg : g.Checked) (last : g.SkipsLast)
    {n : NonTerminal} {j : Nat} {b : Alternative} {tokens : List Token}
    (at_j : (g.alternatives n)[j]? = some b) (starts : g.Starts (.parts b) tokens) :
    (phrase g [] n tokens).TakenBy j := by
  have heeds := phrase_heeds hg [] n tokens (by simp)
  have whole : g.Starts (.symbol (.nonTerminal n)) tokens :=
    (starts_phrase_iff hg.distinct).2 ⟨b, List.mem_of_getElem? at_j, starts⟩
  cases outcome : phrase g [] n tokens with
  | rejected =>
    rw [outcome] at heeds
    exact heeds.2 last whole
  | failed misfit rest => trivial
  | matched t rest moved le =>
    rw [outcome] at heeds
    cases moved with
    | false => exact absurd whole (heeds.2 last)
    | true =>
      obtain ⟨a, chosen, here⟩ := starts_of_moved hg outcome
      exact hg.eq_of_starts chosen at_j here starts

/-- Where neither an alternative that matches nothing nor one before it can begin with the token at
hand, no alternative behind it is taken. -/
theorem alternatives_of_skips {entered : List NonTerminal} {n : NonTerminal}
    {tokens : List Token} {a : Alternative} (before behind : List Alternative)
    (inner : ∀ b ∈ before ++ [a], (parts g entered false b tokens).Heeds g (.parts b))
    (past : ∀ b ∈ before ++ [a], ¬ g.Starts (.parts b) tokens) (skips : g.Skips (.parts a))
    (choice : Nat) : ∃ t rest le,
      alternatives g entered n choice (before ++ a :: behind) tokens = .matched t rest false le ∧
        t.choice ≤ choice + before.length := by
  induction before generalizing choice with
  | nil =>
    have heeds := inner a (by simp)
    have missed := past a (by simp)
    rw [List.nil_append, alternatives]
    revert heeds
    cases parts g entered false a tokens with
    | rejected => exact fun heeds => absurd skips heeds.1
    | failed misfit rest => exact fun starts => absurd starts missed
    | matched children rest moved le =>
      intro heeds
      cases moved with
      | true => exact absurd heeds missed
      | false => exact ⟨_, rest, le, rfl, Nat.le_refl _⟩
  | cons b before ih =>
    rw [List.cons_append, List.forall_mem_cons] at inner past
    obtain ⟨heeds, inner⟩ := inner
    obtain ⟨missed, past⟩ := past
    rw [List.cons_append, alternatives, List.length_cons]
    revert heeds
    cases parts g entered false b tokens with
    | rejected =>
      intro
      obtain ⟨t, rest, le, matched, bound⟩ := ih inner past (choice + 1)
      exact ⟨t, rest, le, matched, by omega⟩
    | failed misfit rest => exact fun starts => absurd starts missed
    | matched children rest moved le =>
      intro heeds
      cases moved with
      | true => exact absurd heeds missed
      | false => exact ⟨_, rest, le, rfl, by show choice ≤ _; omega⟩

/-- An alternative that can match nothing hides a later one that begins with the token at hand: what
is taken matches nothing, and it does not stand behind the first of the two. -/
theorem exists_matched_of_skips (hg : g.Checked) {n : NonTerminal} {i j : Nat}
    {a b : Alternative} {tokens : List Token} (at_i : (g.alternatives n)[i]? = some a)
    (skips : g.Skips (.parts a)) (at_j : (g.alternatives n)[j]? = some b)
    (starts : g.Starts (.parts b) tokens) (lt : i < j) :
    ∃ t rest le, phrase g [] n tokens = .matched t rest false le ∧ t.choice ≤ i := by
  obtain ⟨lt_i, rfl⟩ := List.getElem?_eq_some_iff.1 at_i
  have upto : (g.alternatives n).take i ++ [(g.alternatives n)[i]] =
      (g.alternatives n).take (i + 1) := List.take_append_getElem lt_i
  have split : g.alternatives n = (g.alternatives n).take i ++
      (g.alternatives n)[i] :: (g.alternatives n).drop (i + 1) := by
    rw [List.getElem_cons_drop, List.take_append_drop]
  have inner : ∀ c ∈ (g.alternatives n).take (i + 1),
      (parts g [n] false c tokens).Heeds g (.parts c) := by
    intro c mem
    have mem_c := List.mem_of_mem_take mem
    refine parts_heeds (hg.solid mem_c) fun m opens => phrase_heeds hg [n] m tokens ?_
    exact List.forall_mem_singleton.2 (.single ⟨c, mem_c, opens⟩)
  have past : ∀ c ∈ (g.alternatives n).take (i + 1), ¬ g.Starts (.parts c) tokens := by
    intro c mem here
    obtain ⟨k, at_k⟩ := List.mem_iff_getElem?.1 mem
    rw [List.getElem?_take] at at_k
    split at at_k
    · next early =>
      have same := hg.eq_of_starts at_k at_j here starts
      omega
    · cases at_k
  rw [← upto] at inner past
  obtain ⟨t, rest, le, matched, bound⟩ :=
    alternatives_of_skips _ ((g.alternatives n).drop (i + 1)) inner past skips 0
  refine ⟨t, rest, le, ?_, ?_⟩
  · rw [phrase, dif_neg (by simp)]
    rwa [← split] at matched
  · rw [List.length_take] at bound
    omega

/-- Whatever the grammar, an alternative that takes a token is the one that begins with it. If
alternatives that match nothing come last, and only then, the token at hand decides for the
alternative that begins with it. -/
theorem one_token_decides_iff {root : NonTerminal} {rules : List Rule}
    (checked : ofRules root rules = .ok g) :
    (g.SkipsLast ↔ ∀ (n : NonTerminal) (j : Nat) (b : Alternative) (tokens : List Token) (p : Nat)
      (t : Token), (g.alternatives n)[j]? = some b → tokens[p]? = some t → t.kind ∈ g.firstOf b →
        (phrase g [] n (tokens.drop p)).TakenBy j) ∧
    ∀ (n : NonTerminal) (j : Nat) (b : Alternative) (tokens : List Token) (p : Nat)
      (t : Token), (g.alternatives n)[j]? = some b → tokens[p]? = some t → t.kind ∈ g.firstOf b →
        ∀ tree rest moved le, phrase g [] n (tokens.drop p) = .matched tree rest moved le →
          tree.choice = j ∨ moved = false ∧ rest = tokens.drop p ∧
            ∃ a, (g.alternatives n)[tree.choice]? = some a ∧ g.Yields (.parts a) [] := by
  have hg := checked_of_ofRules checked
  have starts {b : Alternative} {tokens : List Token} {p : Nat} {t : Token}
      (here : tokens[p]? = some t) (first : t.kind ∈ g.firstOf b) :
      g.Starts (.parts b) (tokens.drop p) :=
    ⟨t, by rw [List.head?_drop]; exact here, mem_firstOf.1 first⟩
  refine ⟨⟨?_, ?_⟩, ?_⟩
  · intro last n j b tokens p t at_j here first
    exact takenBy_of_starts hg last at_j (starts here first)
  · intro decides r mem
    rw [← hg.distinct.alternatives_eq mem, List.pairwise_iff_getElem]
    intro i j lt_i lt_j lt skips
    by_contra some
    obtain ⟨k, first⟩ := List.exists_mem_of_ne_nil _ some
    -- a list of that one token, so that nothing behind it plays a part
    have at_j := List.getElem?_eq_getElem lt_j
    have taken := decides r.1 j _ [⟨k, "", .none⟩] 0 _ at_j rfl first
    have begins : g.Starts (.parts (g.alternatives r.1)[j]) [⟨k, "", .none⟩] :=
      ⟨_, rfl, mem_firstOf.1 first⟩
    obtain ⟨tree, rest, le, matched, bound⟩ :=
      exists_matched_of_skips hg (List.getElem?_eq_getElem lt_i) skips at_j begins lt
    rw [List.drop_zero, matched] at taken
    have same : tree.choice = j := taken
    omega
  · intro n j b tokens p t at_j here first tree rest moved le matched
    cases moved with
    | true =>
      obtain ⟨a, chosen, begins⟩ := starts_of_moved hg matched
      exact .inl (hg.eq_of_starts chosen at_j begins (starts here first))
    | false =>
      obtain ⟨same, a, chosen, empty⟩ := yields_phrase_of_still matched
      exact .inr ⟨rfl, same, a, chosen, empty⟩

/-! ### A type name after an optional word -/

/-- The word `int` alone in a file. -/
def intToken : Token :=
  ⟨.typeName, "int", ⟨"a.dts", 1, 1⟩⟩

/-- Rules for an item that may be the word `const` or nothing, or else a type name. -/
def optionalFirst : List Rule :=
  [⟨.program, [[Script.phrase .item, ⟨.terminal .typeName, .optional⟩]]⟩,
    ⟨.item, [[⟨.terminal (.keyword .const), .optional⟩], [Script.token .typeName]]⟩]

/-- The rules pass their check, but the type name is left to what follows the item. -/
theorem not_forall_takenBy : ¬ ∀ (root : NonTerminal) (rules : List Rule) (g : Grammar),
    ofRules root rules = .ok g → ∀ (n : NonTerminal) (j : Nat) (b : Alternative)
      (tokens : List Token) (p : Nat) (t : Token), (g.alternatives n)[j]? = some b →
        tokens[p]? = some t → t.kind ∈ g.firstOf b →
          (phrase g [] n (tokens.drop p)).TakenBy j := by
  intro decides
  have passes : flaw? ⟨.program, merge optionalFirst⟩ = none :=
    flaw?_merge.trans (by decide +kernel)
  have own : Grammar.alternatives ⟨.program, merge optionalFirst⟩ .item =
      [[⟨.terminal (.keyword .const), .optional⟩], [Script.token .typeName]] := by
    decide +kernel
  have first : .typeName ∈ firstOf ⟨.program, merge optionalFirst⟩ [Script.token .typeName] := by
    decide +kernel
  have taken : (phrase ⟨.program, merge optionalFirst⟩ [] .item [intToken]).TakenBy 1 :=
    decides .program optionalFirst _ (ofRules_eq_ok passes) .item 1 [Script.token .typeName]
      [intToken] 0 intToken (by rw [own]; rfl) rfl first
  simp [phrase, alternatives, own, parts, part, symbol, intToken, Outcome.TakenBy,
    Tree.choice] at taken

/-- In the rules of scripts an alternative that can match nothing is the last one. -/
theorem skipsLast_script : Script.grammar.SkipsLast := by
  unfold SkipsLast
  decide +kernel

/-- The word `int` at the start of a statement decides for a declaration. -/
theorem one_token_decides_int : .typeName ∈ Script.grammar.firstOf [Script.phrase .declaration] ∧
    (phrase Script.grammar [] .statement ([intToken].drop 0)).TakenBy 1 := by
  have own : (Script.grammar.alternatives .statement)[1]? = some [Script.phrase .declaration] := by
    decide +kernel
  have first : .typeName ∈ Script.grammar.firstOf [Script.phrase .declaration] := by
    decide +kernel
  have decides := (one_token_decides_iff Script.grammar?_eq_ok).1.1 skipsLast_script
  exact ⟨first, decides .statement 1 _ [intToken] 0 intToken own rfl first⟩

end Matching

end TradeScript
