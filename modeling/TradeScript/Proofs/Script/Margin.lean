import TradeScript.Proofs.Script.Normal

/-!
# Margins of the code of a script

Where the next word of some code is set is its margin (`Margin`): it tells the number of open
blocks, whether a line has just begun and how many semicolons the header of a loop still has. Tokens
move the margin one by one (`Margin.after`), and no further where a brace would close a block in the
middle of a line or with no block open. The code of a script never gets stuck like this and ends
where it began (`Script.run_of_parse`). This is read off the grammar, which tells for every phrase
how it moves the margin (`Script.phraseEnd`).
-/

namespace TradeScript

/-! ## How words are set -/

/-- A word as a piece that is set in some way. -/
def Piece.ofSetting : Setting → List Char → Piece
  | .within => word
  | .opens => opening
  | .closes => closing
  | .ends => ending

theorem Terminal.eq_of_setting {inHeader : Bool} {k : Terminal} :
    (k.setting inHeader = .opens → k = .mark .leftBrace) ∧
      (k.setting inHeader = .closes → k = .mark .rightBrace) ∧
      (k.setting inHeader = .ends → k = .mark .semicolon) := by
  unfold Terminal.setting
  grind

/-! ## Margins -/

/-- Where the next word of some code is set. -/
structure Margin where
  /-- The number of open blocks. -/
  depth : Nat
  /-- Whether a line has just begun. -/
  fresh : Bool
  /-- The number of semicolons that the header of a loop still has. -/
  pending : Nat
  deriving DecidableEq

namespace Margin

/-- The margin where code begins and ends. -/
def start : Margin :=
  ⟨0, true, 0⟩

/-- The margin after a token. Only where a line has just begun, a brace closes a block. -/
def after (m : Margin) (k : Terminal) : Option Margin :=
  match k.setting (m.pending ≠ 0) with
  | .within => some ⟨m.depth, false, k.pendingAfter m.pending⟩
  | .opens => some ⟨m.depth + 1, true, k.pendingAfter m.pending⟩
  | .closes =>
    if m.fresh ∧ m.depth ≠ 0 then some ⟨m.depth - 1, true, k.pendingAfter m.pending⟩ else none
  | .ends => some ⟨m.depth, true, k.pendingAfter m.pending⟩

/-- The margin after some tokens. -/
def run (m : Margin) (ks : List Terminal) : Option Margin :=
  ks.foldlM after m

@[simp]
theorem run_nil (m : Margin) : m.run [] = some m :=
  rfl

theorem run_cons (m : Margin) (k : Terminal) (ks : List Terminal) :
    m.run (k :: ks) = (m.after k).bind fun m' => m'.run ks :=
  List.foldlM_cons

theorem run_singleton (m : Margin) (k : Terminal) : m.run [k] = m.after k := by
  rw [run_cons]
  exact Option.bind_fun_some (m.after k)

theorem run_append (m : Margin) (ks ls : List Terminal) :
    m.run (ks ++ ls) = (m.run ks).bind fun m' => m'.run ls :=
  List.foldlM_append

/-! ## Tokens within a line and at its end -/

section

variable {m m' : Margin} {k : Terminal}

/-- The number of blocks that are open around a token, without the one that it closes. -/
def around (m : Margin) (k : Terminal) : Nat :=
  m.depth - [k].count (.mark .rightBrace)

/-- What a token does that ends its line. -/
structure Ended (m : Margin) (k : Terminal) (m' : Margin) : Prop where
  fresh : m'.fresh = true
  pending : m'.pending = k.pendingAfter m.pending
  /-- A brace closes a block only where a line has just begun. -/
  closes : k = .mark .rightBrace → m.fresh = true
  around : m.around k + [k].count (.mark .rightBrace) = m.depth
  depth : m.around k + [k].count (.mark .leftBrace) = m'.depth
  render : ∀ word others,
    Piece.render m.depth m.fresh (Piece.ofSetting (k.setting (m.pending ≠ 0)) word :: others) =
      Piece.lead (m.around k) m.fresh word ++ word ++ '\n' :: Piece.render m'.depth true others

/-- A token is set within its line, or ends it. -/
theorem after_cases (h : m.after k = some m') :
    (k.setting (m.pending ≠ 0) = .within ∧ m' = ⟨m.depth, false, k.pendingAfter m.pending⟩) ∨
      (k.setting (m.pending ≠ 0) ≠ .within ∧ m.Ended k m') := by
  unfold after at h
  obtain ⟨opens, closes, ends⟩ := @Terminal.eq_of_setting (m.pending ≠ 0) k
  cases set : k.setting (m.pending ≠ 0) with
  | within =>
    rw [set] at h
    exact .inl ⟨rfl, (Option.some.inj h).symm⟩
  | opens =>
    rw [set] at h
    obtain rfl := Option.some.inj h
    obtain rfl := opens set
    exact .inr ⟨nofun, rfl, rfl, nofun, rfl, rfl, fun word others => by rw [set]; rfl⟩
  | closes =>
    rw [set] at h
    obtain ⟨⟨fresh, deep⟩, h⟩ := Option.ite_none_right_eq_some.1 h
    obtain rfl := Option.some.inj h
    obtain rfl := closes set
    refine .inr ⟨nofun, rfl, rfl, fun _ => fresh, Nat.sub_add_cancel (Nat.pos_of_ne_zero deep), rfl,
      fun word others => ?_⟩
    rw [set, fresh]
    rfl
  | ends =>
    rw [set] at h
    obtain rfl := Option.some.inj h
    obtain rfl := ends set
    exact .inr ⟨nofun, rfl, rfl, nofun, rfl, rfl, fun word others => by rw [set]; rfl⟩

end

/-! ## What is known of a margin

A phrase is looked at without the blocks around it, and often it is not known whether a line has
just begun.
-/

/-- A margin below some blocks. Of its line it is only known that it has just begun, or nothing. -/
structure Fits (known : Margin) (base : Nat) (m : Margin) : Prop where
  depth : m.depth = base + known.depth
  fresh : known.fresh = true → m.fresh = true
  pending : m.pending = known.pending

/-- From a margin of which this much is known, tokens lead to one of which that much is known. -/
def Leads (known known' : Margin) (ks : List Terminal) : Prop :=
  ∀ base m, known.Fits base m → ∃ m', known'.Fits base m' ∧ m.run ks = some m'

/-- What is known of a margin implies something that may say less of its line. -/
def Implies (known known' : Margin) : Prop :=
  known.depth = known'.depth ∧ (known'.fresh = true → known.fresh = true) ∧
    known.pending = known'.pending

instance (known known' : Margin) : Decidable (known.Implies known') :=
  inferInstanceAs (Decidable (_ ∧ _ ∧ _))

variable {known known' known'' : Margin} {ks ls : List Terminal}

theorem Implies.fits (h : known.Implies known') {base : Nat} {m : Margin}
    (fits : known.Fits base m) : known'.Fits base m :=
  ⟨by rw [fits.depth, h.1], fun fresh => fits.fresh (h.2.1 fresh), by rw [fits.pending, h.2.2]⟩

theorem implies_refl (known : Margin) : known.Implies known :=
  ⟨rfl, id, rfl⟩

theorem Leads.weaken (h : Leads known known' ks) (less : known'.Implies known'') :
    Leads known known'' ks := by
  intro base m fits
  obtain ⟨m', fits', run⟩ := h base m fits
  exact ⟨m', less.fits fits', run⟩

theorem leads_nil (h : known.Implies known') : Leads known known' [] :=
  fun _ m fits => ⟨m, h.fits fits, rfl⟩

theorem Leads.append (h : Leads known known' ks) (h' : Leads known' known'' ls) :
    Leads known known'' (ks ++ ls) := by
  intro base m fits
  obtain ⟨m', fits', run⟩ := h base m fits
  obtain ⟨m'', fits'', run'⟩ := h' base m' fits'
  exact ⟨m'', fits'', by rw [run_append, run, Option.bind_some, run']⟩

/-- A phrase moves margins in the same way below any number of blocks. -/
theorem Leads.deepen {fresh fresh' : Bool} {pending pending' : Nat}
    (h : Leads ⟨0, fresh, pending⟩ ⟨0, fresh', pending'⟩ ks) (depth : Nat) :
    Leads ⟨depth, fresh, pending⟩ ⟨depth, fresh', pending'⟩ ks := by
  intro base m fits
  obtain ⟨m', fits', run⟩ := h (base + depth) m ⟨fits.depth, fits.fresh, fits.pending⟩
  exact ⟨m', ⟨fits'.depth, fits'.fresh, fits'.pending⟩, run⟩

theorem leads_token {k : Terminal} (h : known.after k = some known') : Leads known known' [k] := by
  rintro base m ⟨depth, fresh, pending⟩
  rw [run_singleton]
  unfold after at h ⊢
  rw [pending]
  split at h
  case h_1 | h_4 =>
    obtain rfl := Option.some.inj h
    refine ⟨_, ?_, rfl⟩
    exact ⟨depth, id, rfl⟩
  case h_2 =>
    obtain rfl := Option.some.inj h
    refine ⟨_, ?_, rfl⟩
    exact ⟨congrArg (· + 1) depth, id, rfl⟩
  case h_3 =>
    obtain ⟨closes, found⟩ := Option.ite_none_right_eq_some.1 h
    obtain rfl := Option.some.inj found
    have closes' : m.fresh = true ∧ m.depth ≠ 0 := ⟨fresh closes.1, by omega⟩
    refine ⟨_, ?_, if_pos closes'⟩
    exact ⟨by simp only; omega, id, rfl⟩

end Margin

namespace Script

open Grammar

/-! ## How phrases move the margin -/

/-- The phrases that are whole lines, or end one that has begun. -/
def sentences : List NonTerminal :=
  [.item, .indicatorDeclaration, .statement, .block, .declaration, .ifStatement, .whileStatement,
    .forStatement, .returnStatement, .breakStatement, .continueStatement, .actionStatement,
    .expressionStatement, .emptyStatement]

/-- Whether a line has just begun after a phrase, and the number of semicolons that the header of a
loop still has, given both before the phrase. There is none where the phrase cannot stand. -/
def phraseEnd (n : NonTerminal) (fresh : Bool) (pending : Nat) : Option (Bool × Nat) :=
  if n ∈ sentences ∧ pending = 0 then some (true, 0)
  else if n ∈ [.forInitializer, .declaration, .expressionStatement, .emptyStatement] then
    if pending = 2 then some (false, 1) else none
  else if n ∈ [.program, .elseClause] then
    if fresh ∧ pending = 0 then some (true, 0) else none
  else if n ∉ sentences ∧ pending ≤ 2 then some (false, pending)
  else none

/-- The margin after what stands for a symbol once. -/
def symbolAfter (m : Margin) : Symbol → Option Margin
  | .terminal k => m.after k
  | .nonTerminal n =>
    (phraseEnd n m.fresh m.pending).map fun (fresh, pending) => ⟨m.depth, fresh, pending⟩

/-- Whether some more of a symbol, with commas before it or not, leaves a margin as it is. -/
def Steady (commas : Bool) (m : Margin) (s : Symbol) : Prop :=
  symbolAfter m s = some m ∧ (commas = true → m.after (.mark .comma) = some m)

instance (commas : Bool) (m : Margin) (s : Symbol) : Decidable (Steady commas m s) :=
  inferInstanceAs (Decidable (_ ∧ _))

/-- The margin after what stands for a part, if it is the same however often the symbol stands. -/
def partAfter (m : Margin) (p : Part) : Option Margin :=
  match p.repeated with
  | .once => symbolAfter m p.symbol
  | repeated => (symbolAfter m p.symbol).filter fun m' =>
    m.Implies m' ∧ Steady (repeated = .separated) m' p.symbol

/-- Every alternative of a phrase moves the margin as the phrase does. -/
theorem phraseEnd_of_rule : ∀ r ∈ grammar.rules, ∀ a ∈ r.2, ∀ fresh : Bool, ∀ pending < 3,
    ∀ e ∈ phraseEnd r.1 fresh pending, ∃ m ∈ a.foldlM partAfter ⟨0, fresh, pending⟩,
      m.Implies ⟨0, e.1, e.2⟩ := by
  decide +kernel

/-! ## What is derived moves the margin as its goal does -/

/-- The margin after what is derived from a goal. -/
def goalAfter (m : Margin) : Goal → Option Margin
  | .symbol s => symbolAfter m s
  | .part p => partAfter m p
  | .parts ps => ps.foldlM partAfter m
  | .many s => if Steady false m s then some m else none
  | .further s => if Steady true m s then some m else none

theorem goalAfter_repeated {m m' : Margin} {s : Symbol} {repeated : Repeat}
    (h : goalAfter m (.part ⟨s, repeated⟩) = some m') (other : repeated ≠ .once) :
    symbolAfter m s = some m' ∧ m.Implies m' ∧ Steady (repeated = .separated) m' s := by
  simp only [goalAfter, partAfter] at h
  obtain ⟨found, kept⟩ := Option.filter_eq_some_iff.1 h
  exact ⟨found, of_decide_eq_true kept⟩

theorem pending_lt_of_phraseEnd {n : NonTerminal} {fresh : Bool} {pending : Nat}
    {e : Bool × Nat} (h : phraseEnd n fresh pending = some e) : pending < 3 := by
  unfold phraseEnd at h
  grind

/-- What is derived from a goal leads from margin to margin as the goal tells. -/
theorem leads_of_yields {goal : Goal} {ks : List Terminal} (h : grammar.Yields goal ks)
    {m m' : Margin} (after : goalAfter m goal = some m') : Margin.Leads m m' ks := by
  induction h generalizing m m' with
  | terminal k => exact Margin.leads_token after
  | @phrase n a ks mem body ih =>
    obtain ⟨e, ends, rfl⟩ := Option.map_eq_some_iff.1 after
    obtain ⟨end', found, less⟩ := phraseEnd_of_rule _ (rule_of_mem_alternatives mem) a mem
      m.fresh m.pending (pending_lt_of_phraseEnd ends) e ends
    exact ((ih found).weaken less).deepen m.depth
  | nil =>
    obtain rfl := Option.some.inj after
    exact Margin.leads_nil (Margin.implies_refl m)
  | cons first rest ih₁ ih₂ =>
    obtain ⟨middle, first_after, rest_after⟩ := Option.bind_eq_some_iff.1 after
    exact (ih₁ first_after).append (ih₂ rest_after)
  | once one ih => exact ih after
  | omitted s => exact Margin.leads_nil (goalAfter_repeated after nofun).2.1
  | present one ih => exact ih (goalAfter_repeated after nofun).1
  | repeated some ih =>
    obtain ⟨-, less, steady⟩ := goalAfter_repeated after nofun
    exact (Margin.leads_nil less).append (ih (if_pos steady))
  | noElement s => exact Margin.leads_nil (goalAfter_repeated after nofun).2.1
  | separated first rest ih₁ ih₂ =>
    obtain ⟨found, -, steady⟩ := goalAfter_repeated after nofun
    exact (ih₁ found).append (ih₂ (if_pos steady))
  | manyNil s =>
    obtain ⟨-, found⟩ := Option.ite_none_right_eq_some.1 after
    obtain rfl := Option.some.inj found
    exact Margin.leads_nil (Margin.implies_refl m)
  | manyCons first rest ih₁ ih₂ =>
    obtain ⟨steady, found⟩ := Option.ite_none_right_eq_some.1 after
    obtain rfl := Option.some.inj found
    exact (ih₁ steady.1).append (ih₂ after)
  | furtherNil s =>
    obtain ⟨-, found⟩ := Option.ite_none_right_eq_some.1 after
    obtain rfl := Option.some.inj found
    exact Margin.leads_nil (Margin.implies_refl m)
  | furtherCons first rest ih₁ ih₂ =>
    obtain ⟨steady, found⟩ := Option.ite_none_right_eq_some.1 after
    obtain rfl := Option.some.inj found
    exact (Margin.leads_token (steady.2 rfl)).append ((ih₁ steady.1).append (ih₂ after))

/-- The tokens that are left of a script move the margin back to where it was at the start. -/
theorem run_of_parse {tokens : List Token} {t : Tree}
    (h : Tree.parse grammar .program tokens = .ok t) :
    Margin.start.run ((t.rewritten tokens).map Prod.fst) = some Margin.start := by
  have leads : Margin.Leads .start .start ((t.rewritten tokens).map Prod.fst) :=
    leads_of_yields (derives_of_parse h).yields rfl
  obtain ⟨m, ⟨depth, fresh, pending⟩, run⟩ := leads 0 .start ⟨rfl, id, rfl⟩
  obtain ⟨depth', fresh', pending'⟩ := m
  obtain rfl : depth' = 0 := depth
  obtain rfl : fresh' = true := fresh rfl
  obtain rfl : pending' = 0 := pending
  exact run

end Script

end TradeScript
