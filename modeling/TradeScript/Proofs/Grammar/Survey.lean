import Mathlib.Data.List.ProdSigma
import TradeScript.Proofs.Grammar.Front
import TradeScript.Proofs.Subset

/-!
# The tables of a grammar are complete

`Grammar.nullable` and `Grammar.fronts` are computed in a fixed number of rounds. The number is
large enough for all rules: a round that changes a table adds an element to it, and there are only
so many elements. Hence a grammar with one entry for each rule is surveyed (`Distinct.surveyed`).

The tables hold only what a rule gives a reason for (`Distinct.exists_skippable`,
`Distinct.mem_fronts_iff`), and each round keeps the reasons: nothing can be derived from what the
first table holds (`Distinct.empties`), and what the second one lists for a phrase can stand at its
front (`Distinct.sound_fronts`).
-/

open Relation

namespace TradeScript

namespace Grammar

/-- Every non-terminal has at most one entry among the rules. -/
def Distinct (g : Grammar) : Prop :=
  (g.rules.map Prod.fst).Nodup

variable {g : Grammar}

theorem Distinct.alternatives_eq (hg : g.Distinct) {r : NonTerminal × List Alternative}
    (mem : r ∈ g.rules) : g.alternatives r.1 = r.2 := by
  obtain ⟨before, behind, split⟩ := List.append_of_mem mem
  have found : g.rules.lookup r.1 = some r.2 := by
    refine List.lookup_eq_some_iff.2 ⟨before, behind, split, fun q mem_q => ?_⟩
    unfold Distinct at hg
    rw [split, List.map_append, List.map_cons, List.nodup_middle, List.nodup_cons] at hg
    rw [bne_iff_ne]
    intro same
    refine hg.1 (List.mem_append_left _ ?_)
    rw [same]
    exact List.mem_map_of_mem mem_q
  rw [alternatives, found, Option.getD_some]

/-- A list of entries that are made for the phrases of another list has its order. -/
theorem sublist_heads {α : Type} {made? : NonTerminal → Option (NonTerminal × α)}
    (own : ∀ n entry, made? n = some entry → entry.1 = n) (all : List NonTerminal) :
    ((all.filterMap made?).map Prod.fst).Sublist all := by
  induction all with
  | nil => exact .slnil
  | cons n all ih =>
    cases made : made? n with
    | none =>
      rw [List.filterMap_cons_none made]
      exact ih.cons n
    | some entry =>
      rw [List.filterMap_cons_some made, List.map_cons, own n entry made]
      exact ih.cons_cons n

theorem distinct_merge (root : NonTerminal) (rules : List Rule) :
    Distinct ⟨root, merge rules⟩ := by
  have heads : ((merge rules).map Prod.fst).Sublist NonTerminal.all := by
    unfold merge
    refine sublist_heads (fun n entry made => ?_) _
    split at made
    · cases made
    · cases made
      rfl
  exact heads.nodup (by decide)

/-! ## What can match nothing -/

theorem nullableStep_cons (r : NonTerminal × List Alternative)
    (rules : List (NonTerminal × List Alternative)) (s : Subset NonTerminal) :
    nullableStep (r :: rules) s =
      nullableStep rules (if r.2.any (·.all (skippable s)) then s.insert r.1 else s) :=
  rfl

/-- What holds of a set, and is kept when a rule with a skippable alternative adds its non-terminal,
holds after a round over the rules. -/
theorem nullableStep_induction {rules : List (NonTerminal × List Alternative)}
    {p : Subset NonTerminal → Prop}
    (keeps : ∀ r ∈ rules, ∀ s, p s → r.2.any (·.all (skippable s)) = true → p (s.insert r.1))
    {s : Subset NonTerminal} (start : p s) : p (nullableStep rules s) := by
  induction rules generalizing s with
  | nil => exact start
  | cons r rules ih =>
    obtain ⟨here, others⟩ := List.forall_mem_cons.1 keeps
    rw [nullableStep_cons]
    refine ih others ?_
    split
    · next empty => exact here s start empty
    · exact start

theorem mem_nullableStep {rules : List (NonTerminal × List Alternative)} {s : Subset NonTerminal}
    {n : NonTerminal} (h : n ∈ s) : n ∈ nullableStep rules s :=
  nullableStep_induction (p := fun s => n ∈ s)
    (fun _ _ _ here _ => Subset.mem_insert.2 (.inl here)) h

/-- A round over the rules changes nothing or finds another non-terminal. -/
theorem nullableStep_eq_or (rules : List (NonTerminal × List Alternative))
    (s : Subset NonTerminal) :
    nullableStep rules s = s ∨ ∃ n, n ∈ nullableStep rules s ∧ n ∉ s := by
  induction rules generalizing s with
  | nil => exact .inl rfl
  | cons r rules ih =>
    rw [nullableStep_cons]
    split
    · by_cases known : r.1 ∈ s
      · rw [Subset.insert_eq_self known]
        exact ih s
      · exact .inr ⟨r.1, mem_nullableStep (Subset.mem_insert.2 (.inr rfl)), known⟩
    · exact ih s

theorem mem_of_nullableStep_eq {rules : List (NonTerminal × List Alternative)}
    {s : Subset NonTerminal} (fixed : nullableStep rules s = s) :
    ∀ r ∈ rules, r.2.any (·.all (skippable s)) = true → r.1 ∈ s := by
  induction rules with
  | nil => simp
  | cons r rules ih =>
    rw [nullableStep_cons] at fixed
    rw [List.forall_mem_cons]
    by_cases empty : r.2.any (·.all (skippable s)) = true
    · rw [if_pos empty] at fixed
      have known : r.1 ∈ s := by
        rw [← fixed]
        exact mem_nullableStep (Subset.mem_insert.2 (.inr rfl))
      rw [Subset.insert_eq_self known] at fixed
      exact ⟨fun _ => known, ih fixed⟩
    · rw [if_neg empty] at fixed
      exact ⟨fun h => absurd h empty, ih fixed⟩

theorem nullable_fixed (g : Grammar) : nullableStep g.rules g.nullable = g.nullable := by
  refine settle_fixed Subset.size (p := fun _ => True) (fun _ _ => trivial) ?_
    (fun s _ => s.size_le) _ trivial (Nat.le_add_left _ _)
  intro s _ changed
  obtain same | ⟨n, found, absent⟩ := nullableStep_eq_or g.rules s
  · exact absurd same changed
  · exact Subset.size_lt (fun _ => mem_nullableStep) found absent

theorem skippable_mono {s t : Subset NonTerminal} (sub : ∀ n ∈ s, n ∈ t) {p : Part}
    (h : skippable s p = true) : skippable t p = true := by
  obtain ⟨k | n, repeated⟩ := p
  · exact h
  · simp only [skippable, Bool.or_eq_true] at h ⊢
    exact h.imp_right (sub n)

/-- Every non-terminal of a set has an alternative that the set lets skip. -/
def Justified (rules : List (NonTerminal × List Alternative)) (s : Subset NonTerminal) : Prop :=
  ∀ n ∈ s, ∃ r ∈ rules, r.1 = n ∧ ∃ a ∈ r.2, a.all (skippable s) = true

theorem Justified.step {rules : List (NonTerminal × List Alternative)} {s : Subset NonTerminal}
    (h : Justified rules s) : Justified rules (nullableStep rules s) := by
  refine nullableStep_induction (fun r mem s h empty n here => ?_) h
  have kept : ∀ {a : Alternative}, a.all (skippable s) = true →
      a.all (skippable (s.insert r.1)) = true := by
    intro a all
    rw [List.all_eq_true] at all ⊢
    intro p mem_p
    exact skippable_mono (fun n here => Subset.mem_insert.2 (.inl here)) (all p mem_p)
  rcases Subset.mem_insert.1 here with old | rfl
  · obtain ⟨q, mem_q, head, a, mem_a, all⟩ := h n old
    exact ⟨q, mem_q, head, a, mem_a, kept all⟩
  · obtain ⟨a, mem_a, all⟩ := List.any_eq_true.1 empty
    exact ⟨r, mem, rfl, a, mem_a, kept all⟩

/-- A non-terminal that can match nothing by the table has an alternative that can. -/
theorem Distinct.exists_skippable (hg : g.Distinct) {n : NonTerminal} (h : n ∈ g.nullable) :
    ∃ a ∈ g.alternatives n, a.all (skippable g.nullable) = true := by
  have start : Justified g.rules .empty := fun n absent => absurd absent (Subset.not_mem_empty n)
  have justified : Justified g.rules g.nullable :=
    settle_induction (p := Justified g.rules) (fun s h => h.step) _ start
  obtain ⟨r, mem, rfl, a, mem_a, all⟩ := justified n h
  rw [← hg.alternatives_eq mem] at mem_a
  exact ⟨a, mem_a, all⟩

/-! ## What can stand at the front -/

theorem lookup_map_snd {α β γ : Type} [BEq α] (f : β → γ) (a : α) (l : List (α × β)) :
    (l.map fun e => (e.1, f e.2)).lookup a = (l.lookup a).map f := by
  induction l with
  | nil => rfl
  | cons e l ih =>
    rw [List.map_cons, List.lookup_cons, List.lookup_cons, ih]
    split <;> rfl

theorem of_frontsStep (nullable : Subset NonTerminal) (fronts : Fronts) (n : NonTerminal) :
    (g.frontsStep nullable fronts).of n = frontOf nullable fronts (g.alternatives n) := by
  have found := lookup_map_snd (frontOf nullable fronts) n g.rules
  unfold Fronts.of frontsStep alternatives
  rw [found]
  cases g.rules.lookup n <;> rfl

theorem mem_frontOf {nullable : Subset NonTerminal} {fronts : Fronts}
    {alternatives : List Alternative} {s : Symbol} : s ∈ frontOf nullable fronts alternatives ↔
      ∃ a ∈ alternatives, s ∈ fronts.ofSymbols (leading nullable a) := by
  simp only [frontOf, Fronts.mem_ofSymbols, List.mem_flatMap]
  constructor
  · rintro (⟨a, mem, here⟩ | ⟨n, ⟨a, mem, here⟩, deeper⟩)
    · exact ⟨a, mem, .inl here⟩
    · exact ⟨a, mem, .inr ⟨n, here, deeper⟩⟩
  · rintro ⟨a, mem, here | ⟨n, here, deeper⟩⟩
    · exact .inl ⟨a, mem, here⟩
    · exact .inr ⟨n, ⟨a, mem, here⟩, deeper⟩

theorem proper_ofSymbols {fronts : Fronts} (h : ∀ n, (fronts.of n).Proper)
    (symbols : List Symbol) : (fronts.ofSymbols symbols).Proper := by
  induction symbols with
  | nil => exact Subset.proper_empty
  | cons s others ih =>
    cases s with
    | terminal k => exact ih.insert _
    | nonTerminal n => exact (ih.insert _).union (h n)

theorem frontOf_mono {nullable : Subset NonTerminal} {fronts more : Fronts}
    (sub : ∀ n, ∀ s ∈ fronts.of n, s ∈ more.of n) {alternatives : List Alternative} {s : Symbol}
    (h : s ∈ frontOf nullable fronts alternatives) : s ∈ frontOf nullable more alternatives := by
  rw [frontOf, Fronts.mem_ofSymbols] at h ⊢
  rcases h with here | ⟨n, here, deeper⟩
  · exact .inl here
  · exact .inr ⟨n, here, sub n s deeper⟩

/-- The number of pairs of a non-terminal and a symbol in a table. -/
def Fronts.size (fronts : Fronts) : Nat :=
  (NonTerminal.all ×ˢ Symbol.all).countP fun (n, s) => (fronts.of n).contains s

/-- A table that comes from an expansion and that the next one does not shrink. -/
structure Expanded (g : Grammar) (nullable : Subset NonTerminal) (fronts : Fronts) : Prop where
  proper (n : NonTerminal) : (fronts.of n).Proper
  grows (n : NonTerminal) : ∀ s ∈ fronts.of n, s ∈ (g.frontsStep nullable fronts).of n
  expansion : ∃ before, fronts = g.frontsStep nullable before

variable {nullable : Subset NonTerminal} {fronts : Fronts}

theorem Expanded.next (h : g.Expanded nullable fronts) :
    g.Expanded nullable (g.frontsStep nullable fronts) where
  proper n := by
    rw [of_frontsStep]
    exact proper_ofSymbols h.proper _
  grows n s mem := by
    rw [of_frontsStep] at mem ⊢
    exact frontOf_mono h.grows mem
  expansion := ⟨fronts, rfl⟩

theorem Expanded.first (g : Grammar) (nullable : Subset NonTerminal) :
    g.Expanded nullable (g.frontsStep nullable []) where
  proper n := by
    have none_yet : ∀ m, (Fronts.of [] m).Proper := fun _ => Subset.proper_empty
    rw [of_frontsStep]
    exact proper_ofSymbols none_yet _
  grows n s mem := by
    rw [of_frontsStep] at mem ⊢
    exact frontOf_mono (fun _ _ absent => absurd absent (Subset.not_mem_empty _)) mem
  expansion := ⟨[], rfl⟩

theorem Expanded.size_lt (hg : g.Distinct) (h : g.Expanded nullable fronts)
    (changed : g.frontsStep nullable fronts ≠ fronts) :
    fronts.size < (g.frontsStep nullable fronts).size := by
  obtain ⟨n, differs⟩ : ∃ n, (g.frontsStep nullable fronts).of n ≠ fronts.of n := by
    by_contra! same
    obtain ⟨before, rfl⟩ := h.expansion
    refine changed (List.map_congr_left fun r mem => ?_)
    have at_r := same r.1
    rw [of_frontsStep, of_frontsStep, hg.alternatives_eq mem] at at_r
    exact congrArg (Prod.mk r.1) at_r
  obtain ⟨s, found, absent⟩ :
      ∃ s, s ∈ (g.frontsStep nullable fronts).of n ∧ s ∉ fronts.of n := by
    by_contra! same
    exact differs ((h.next.proper n).ext (h.proper n) fun s => ⟨same s, h.grows n s⟩)
  refine countP_lt_of_imp (a := (n, s)) (fun ⟨m, t⟩ => h.grows m t) found
    (by simpa [Subset.mem_iff] using absent) ?_
  exact List.mem_product.2 ⟨Listed.mem_all n, Listed.mem_all s⟩

theorem Distinct.fronts_fixed (hg : g.Distinct) :
    g.frontsStep g.nullable g.fronts = g.fronts := by
  unfold Grammar.fronts
  rw [settle]
  split
  · next fixed => exact fixed
  · refine settle_fixed Fronts.size (p := g.Expanded g.nullable)
      (fun _ => Expanded.next) (fun _ h => h.size_lt hg) (fun f _ => ?_) _
      (Expanded.first g g.nullable) (Nat.le_add_left _ _)
    calc f.size ≤ (NonTerminal.all ×ˢ Symbol.all).length := List.countP_le_length
      _ = NonTerminal.all.length * Symbol.all.length := List.length_product _ _

/-- A symbol can stand at the front of a phrase by the table just if it can stand at the front of
one of its alternatives. -/
theorem Distinct.mem_fronts_iff (hg : g.Distinct) {n : NonTerminal} {s : Symbol} :
    s ∈ g.fronts.of n ↔
      ∃ a ∈ g.alternatives n, s ∈ g.fronts.ofSymbols (leading g.nullable a) := by
  rw [← mem_frontOf, ← of_frontsStep, hg.fronts_fixed]

theorem Distinct.surveyed (hg : g.Distinct) : g.Surveyed where
  nullable := mem_of_nullableStep_eq g.nullable_fixed
  fronts r mem := by
    have same : frontOf g.nullable g.fronts r.2 = g.fronts.of r.1 := by
      rw [← hg.alternatives_eq mem, ← of_frontsStep, hg.fronts_fixed]
    rw [same, Subset.union_self]

/-! ## The tables hold nothing else -/

variable {ps : List Part} {k : Terminal}

/-- A set of non-terminals from which nothing can be derived. -/
def Empties (g : Grammar) (nullable : Subset NonTerminal) : Prop :=
  ∀ n ∈ nullable, g.Yields (.symbol (.nonTerminal n)) []

theorem Empties.part (h : g.Empties nullable) {p : Part} (skips : skippable nullable p = true) :
    g.Yields (.part p) [] := by
  obtain ⟨s, _ | _ | _ | _⟩ := p
  case once =>
    cases s with
    | terminal k => cases skips
    | nonTerminal n => exact .once (h n (by simpa [skippable, Subset.mem_iff] using skips))
  case optional => exact .omitted s
  case many => exact .repeated (.manyNil s)
  case separated => exact .noElement s

theorem Empties.parts (h : g.Empties nullable) (all : ps.all (skippable nullable) = true) :
    g.Yields (.parts ps) [] := by
  induction ps with
  | nil => exact .nil
  | cons p ps ih =>
    obtain ⟨first, others⟩ := Bool.and_eq_true_iff.1 (List.all_cons.symm.trans all)
    exact .cons (h.part first) (ih others)

theorem Empties.step (hg : g.Distinct) (h : g.Empties nullable) :
    g.Empties (nullableStep g.rules nullable) := by
  refine nullableStep_induction (fun r mem s h empty n here => ?_) h
  rcases Subset.mem_insert.1 here with old | rfl
  · exact h n old
  · obtain ⟨a, mem_a, all⟩ := List.any_eq_true.1 empty
    rw [← hg.alternatives_eq mem] at mem_a
    exact .phrase mem_a (Empties.parts h all)

theorem Distinct.empties (hg : g.Distinct) : g.Empties g.nullable :=
  settle_induction (fun _ h => Empties.step hg h) _ fun n absent =>
    absurd absent (Subset.not_mem_empty n)

/-- The first table holds the phrases from which nothing can be derived. -/
theorem Distinct.mem_nullable_iff (hg : g.Distinct) {n : NonTerminal} :
    n ∈ g.nullable ↔ g.Yields (.symbol (.nonTerminal n)) [] :=
  ⟨hg.empties n, fun empty => empty.skips hg.surveyed rfl⟩

theorem Empties.first (h : g.Empties nullable) {s : Symbol} (mem : s ∈ leading nullable ps)
    (first : g.First [.symbol s] k) : g.First [.parts ps] k := by
  induction ps with
  | nil => cases mem
  | cons p ps ih =>
    rcases mem_leading_cons.1 mem with rfl | ⟨skips, later⟩
    · have here : g.First ([.part p, .parts ps] ++ []) k :=
        (first.part p.repeated).append [.parts ps]
      exact here.expand (.cons p ps)
    · have there : g.First ([.part p, .parts ps] ++ []) k := (ih later).pass (h.part skips)
      exact there.expand (.cons p ps)

theorem Empties.opens (h : g.Empties nullable) {n : NonTerminal}
    (mem : .nonTerminal n ∈ leading nullable ps) : g.Opens n ps := by
  induction ps with
  | nil => cases mem
  | cons p ps ih =>
    rcases mem_leading_cons.1 mem with same | ⟨skips, later⟩
    · exact .inl same.symm
    · exact .inr ⟨h.part skips, ih later⟩

/-- What a table lists at the front of a phrase can stand there. -/
def Fronts.Sound (g : Grammar) (fronts : Fronts) : Prop :=
  ∀ m n, .nonTerminal n ∈ fronts.of m → TransGen g.Front m n

theorem Fronts.Sound.step (hg : g.Distinct) (h : fronts.Sound g) :
    (g.frontsStep g.nullable fronts).Sound g := by
  intro m n mem
  rw [of_frontsStep] at mem
  obtain ⟨a, mem_a, begins⟩ := mem_frontOf.1 mem
  rcases Fronts.mem_ofSymbols.1 begins with here | ⟨l, here, deeper⟩
  · exact .single ⟨a, mem_a, hg.empties.opens here⟩
  · exact .head ⟨a, mem_a, hg.empties.opens here⟩ (h l n deeper)

theorem Distinct.sound_fronts (hg : g.Distinct) : g.fronts.Sound g :=
  settle_induction (fun _ h => Fronts.Sound.step hg h) _ fun _ _ absent =>
    absurd absent (Subset.not_mem_empty _)

end Grammar

end TradeScript
