import TradeScript.Proofs.Grammar.Survey

/-!
# The searches of the check

The check of a grammar searches its rules for two things. It looks for a phrase that can begin with
a phrase of its own kind, with a stack of phrases still to be looked at and a list of those that
have been seen (`Grammar.leftRecursive`). This search comes upon its goal just if one expansion
after another can bring the goal to the front (`leftRecursive_iff`), because a seen phrase leads
nowhere but to seen and pending ones (`Frontier`). For the first terminals of an alternative it
follows the leading symbols down (`Grammar.firstAlong`), and turns back at a phrase that is on its
path already. What it finds can stand at the front (`first_of_mem_firstAlong`), and if no phrase
begins with a phrase of its own kind, it never turns back and misses nothing
(`Distinct.mem_firstAlong_of_begins`).

The tables give the same answers, so a check that looks them up finds the same first flaw
(`Distinct.flaw?_eq_tabledFlaw?`). It repeats steps of a fixed shape a fixed number of times and can
be evaluated on a given grammar.
-/

open Relation

namespace TradeScript

namespace Grammar

variable {g : Grammar} {nullable : Subset NonTerminal} {m n : NonTerminal}

/-! ## Left recursion -/

/-- A phrase can stand at the front of another one after one expansion, by the rules. -/
def Leads (g : Grammar) (nullable : Subset NonTerminal) (m n : NonTerminal) : Prop :=
  n ∈ g.leftmost nullable m

/-- Where a search stands that has not come upon its goal: a phrase that has been seen leads to
phrases that have been seen or are pending. -/
structure Frontier (g : Grammar) (nullable : Subset NonTerminal) (goal : NonTerminal)
    (seen pending : List NonTerminal) : Prop where
  missed : goal ∉ seen
  edge {m n : NonTerminal} (mem : m ∈ seen) (leads : g.Leads nullable m n) :
    n ∈ seen ∨ n ∈ pending

variable {goal : NonTerminal} {seen pending : List NonTerminal}

theorem Frontier.start (g : Grammar) (nullable : Subset NonTerminal) (goal : NonTerminal)
    (pending : List NonTerminal) : g.Frontier nullable goal [] pending where
  missed := List.not_mem_nil
  edge mem := absurd mem List.not_mem_nil

theorem Frontier.pass (h : g.Frontier nullable goal seen (n :: pending)) (old : n ∈ seen) :
    g.Frontier nullable goal seen pending where
  missed := h.missed
  edge mem leads := by
    rcases h.edge mem leads with seen | here
    · exact .inl seen
    · rcases List.mem_cons.1 here with rfl | later
      · exact .inl old
      · exact .inr later

theorem Frontier.expand (h : g.Frontier nullable goal seen (n :: pending)) (other : n ≠ goal) :
    g.Frontier nullable goal (n :: seen) ((g.leftmost nullable n).reverse ++ pending) where
  missed mem := (List.mem_cons.1 mem).elim (fun same => other same.symm) h.missed
  edge {m l} mem leads := by
    rcases List.mem_cons.1 mem with rfl | old
    · exact .inr (List.mem_append_left _ (List.mem_reverse.2 leads))
    · rcases h.edge old leads with seen | here
      · exact .inl (List.mem_cons_of_mem _ seen)
      · rcases List.mem_cons.1 here with rfl | later
        · exact .inl List.mem_cons_self
        · exact .inr (List.mem_append_right _ later)

/-- The way from a seen phrase to the goal passes a pending one. -/
theorem Frontier.exists_pending (h : g.Frontier nullable goal seen pending) (old : m ∈ seen)
    (way : ReflTransGen (g.Leads nullable) m goal) :
    ∃ n ∈ pending, ReflTransGen (g.Leads nullable) n goal := by
  induction way using ReflTransGen.head_induction_on with
  | refl => exact absurd old h.missed
  | head leads way ih =>
    rcases h.edge old leads with seen | here
    · exact ih seen
    · exact ⟨_, here, way⟩

/-- A search comes upon its goal just if a pending phrase leads there. -/
theorem Frontier.comesUpon_iff (h : g.Frontier nullable goal seen pending) :
    g.comesUpon nullable goal seen pending = true ↔
      ∃ n ∈ pending, ReflTransGen (g.Leads nullable) n goal := by
  fun_induction comesUpon g nullable goal seen pending with
  | case1 seen => simp
  | case2 seen pending => exact ⟨fun _ => ⟨_, List.mem_cons_self, .refl⟩, fun _ => rfl⟩
  | case3 seen n pending other old ih =>
    rw [ih (h.pass old)]
    constructor
    · rintro ⟨l, mem, way⟩
      exact ⟨l, List.mem_cons_of_mem _ mem, way⟩
    · rintro ⟨l, mem, way⟩
      rcases List.mem_cons.1 mem with rfl | later
      · exact (h.pass old).exists_pending old way
      · exact ⟨l, later, way⟩
  | case4 seen n pending other new ih =>
    rw [ih (h.expand other)]
    constructor
    · rintro ⟨l, mem, way⟩
      rcases List.mem_append.1 mem with here | later
      · exact ⟨n, List.mem_cons_self, way.head (List.mem_reverse.1 here)⟩
      · exact ⟨l, List.mem_cons_of_mem _ later, way⟩
    · rintro ⟨l, mem, way⟩
      rcases List.mem_cons.1 mem with rfl | later
      · rcases way.cases_head with rfl | ⟨next, leads, way⟩
        · exact absurd rfl other
        · exact ⟨next, List.mem_append_left _ (List.mem_reverse.2 leads), way⟩
      · exact ⟨l, List.mem_append_right _ later, way⟩

/-- A phrase is found to be left recursive just if expansions can bring one of its kind to its
front. -/
theorem leftRecursive_iff :
    g.leftRecursive nullable n = true ↔ TransGen (g.Leads nullable) n n := by
  unfold leftRecursive
  rw [(Frontier.start g nullable n _).comesUpon_iff, TransGen.head'_iff]
  simp [Leads]

/-- If no rule is found to be left recursive, no phrase leads back to itself. -/
theorem not_transGen_of_leftRecursion?
    (none_found : ∀ r ∈ g.rules, leftRecursion? (g.leftRecursive nullable) r = none)
    (n : NonTerminal) : ¬ TransGen (g.Leads nullable) n n := by
  intro cycle
  obtain ⟨m, leads, -⟩ := TransGen.head'_iff.1 cycle
  obtain ⟨a, mem, -⟩ := mem_leftmost.1 leads
  have check := none_found _ (rule_of_mem_alternatives mem)
  simp [leftRecursion?, leftRecursive_iff.2 cycle] at check

/-! ### Phrases that derivations begin with -/

theorem Surveyed.leads_of_front (hs : g.Surveyed) (h : g.Front m n) : g.Leads g.nullable m n := by
  obtain ⟨a, mem, opens⟩ := h
  exact mem_leftmost.2 ⟨a, mem, mem_leading_of_opens hs opens⟩

theorem Empties.front_of_leads (h : g.Empties nullable) (leads : g.Leads nullable m n) :
    g.Front m n := by
  obtain ⟨a, mem, here⟩ := mem_leftmost.1 leads
  exact ⟨a, mem, h.opens here⟩

/-- The search finds the phrases that can begin with a phrase of their own kind. -/
theorem Distinct.leftRecursive_iff_front (hg : g.Distinct) :
    g.leftRecursive g.nullable n = true ↔ TransGen g.Front n n := by
  rw [leftRecursive_iff]
  exact ⟨fun way => way.lift id fun _ _ => hg.empties.front_of_leads,
    fun way => way.lift id fun _ _ => hg.surveyed.leads_of_front⟩

/-! ## First terminals -/

section

variable {k : Terminal}

/-- A terminal is found at a symbol that stands at the front of what is searched. -/
def Found (g : Grammar) (nullable : Subset NonTerminal) (path : List NonTerminal) (k : Terminal) :
    Symbol → Prop
  | .terminal l => k = l
  | .nonTerminal n => n ∉ path ∧ ∃ a ∈ g.alternatives n, k ∈ g.firstAlong nullable (n :: path) a

theorem mem_firstAlong_cons {path : List NonTerminal} {p : Part} {ps : List Part} :
    k ∈ g.firstAlong nullable path (p :: ps) ↔ g.Found nullable path k p.symbol ∨
      skippable nullable p = true ∧ k ∈ g.firstAlong nullable path ps := by
  obtain ⟨l | n, repeated⟩ := p
  all_goals
    rw [firstAlong]
    simp [Found]

/-- The search looks at the leading symbols of what is searched. -/
theorem mem_firstAlong_iff {path : List NonTerminal} {ps : List Part} :
    k ∈ g.firstAlong nullable path ps ↔
      ∃ s ∈ leading nullable ps, g.Found nullable path k s := by
  induction ps with
  | nil => simp [firstAlong, leading]
  | cons p ps ih =>
    rw [mem_firstAlong_cons, ih]
    simp only [mem_leading_cons, or_and_right, exists_or, exists_eq_left, and_assoc,
      exists_and_left]

/-- What is found can stand at the front. -/
theorem first_of_mem_firstAlong (h : g.Empties nullable) {path : List NonTerminal}
    {ps : List Part} (mem : k ∈ g.firstAlong nullable path ps) : g.First [.parts ps] k := by
  obtain ⟨s, leads, found⟩ := mem_firstAlong_iff.1 mem
  refine h.first leads ?_
  cases s with
  | terminal l =>
    obtain rfl : k = l := found
    exact first_terminal k []
  | nonTerminal n =>
    obtain ⟨new, a, mem_a, deeper⟩ := found
    exact (first_of_mem_firstAlong h deeper).expand (.phrase mem_a)
  termination_by NonTerminal.all.countP (fun n => !path.contains n)
  decreasing_by exact countP_new_cons_lt new (Listed.mem_all n)

/-- What is found is listed by the tables. -/
theorem Distinct.begins_of_mem_firstAlong (hg : g.Distinct) {path : List NonTerminal}
    {ps : List Part} (mem : k ∈ g.firstAlong g.nullable path ps) : g.Begins (.parts ps) k := by
  obtain ⟨s, leads, found⟩ := mem_firstAlong_iff.1 mem
  refine Fronts.mem_ofSymbols.2 ?_
  cases s with
  | terminal l =>
    obtain rfl : k = l := found
    exact .inl leads
  | nonTerminal n =>
    obtain ⟨new, a, mem_a, deeper⟩ := found
    have begins : g.Begins (.parts a) k := hg.begins_of_mem_firstAlong deeper
    exact .inr ⟨n, leads, hg.mem_fronts_iff.2 ⟨a, mem_a, begins⟩⟩
  termination_by NonTerminal.all.countP (fun n => !path.contains n)
  decreasing_by exact countP_new_cons_lt new (Listed.mem_all n)

/-- Where every phrase on the path leads to each phrase that leads what is searched, and no phrase
leads back to itself, all that the tables list is found. -/
theorem Distinct.mem_firstAlong_of_begins (hg : g.Distinct)
    (acyclic : ∀ n, ¬ TransGen (g.Leads g.nullable) n n) {path : List NonTerminal}
    {ps : List Part} (behind : ∀ e ∈ path, ∀ n, .nonTerminal n ∈ leading g.nullable ps →
      TransGen (g.Leads g.nullable) e n)
    (begins : g.Begins (.parts ps) k) : k ∈ g.firstAlong g.nullable path ps := by
  rw [mem_firstAlong_iff]
  rcases Fronts.mem_ofSymbols.1 begins with here | ⟨n, leads, deeper⟩
  · exact ⟨_, here, rfl⟩
  have new : n ∉ path := fun mem => acyclic n (behind n mem n leads)
  obtain ⟨a, mem_a, begins⟩ := hg.mem_fronts_iff.1 deeper
  refine ⟨_, leads, new, a, mem_a, hg.mem_firstAlong_of_begins acyclic ?_ begins⟩
  intro e mem_e m leads_m
  have next : g.Leads g.nullable n m := mem_leftmost.2 ⟨a, mem_a, leads_m⟩
  rcases List.mem_cons.1 mem_e with rfl | mem_e
  · exact .single next
  · exact (behind e mem_e n leads).tail next
  termination_by NonTerminal.all.countP (fun n => !path.contains n)
  decreasing_by exact countP_new_cons_lt new (Listed.mem_all n)

/-- If no phrase leads back to itself, the search from an alternative finds what the tables list. -/
theorem Distinct.mem_firstAlong_iff_begins (hg : g.Distinct)
    (acyclic : ∀ n, ¬ TransGen (g.Leads g.nullable) n n) {ps : List Part} :
    k ∈ g.firstAlong g.nullable [] ps ↔ g.Begins (.parts ps) k :=
  ⟨hg.begins_of_mem_firstAlong, hg.mem_firstAlong_of_begins acyclic (by simp)⟩

end

/-! ## The check by tables -/

/-- A phrase is found to be left recursive just if it stands at its own front by the table. -/
theorem Distinct.leftRecursive_eq (hg : g.Distinct) :
    g.leftRecursive g.nullable = fun n => (g.fronts.of n).contains (.nonTerminal n) := by
  funext n
  rw [Bool.eq_iff_iff, hg.leftRecursive_iff_front]
  exact ⟨mem_fronts_of_transGen hg.surveyed, hg.sound_fronts n n⟩

theorem overlap?_congr {starts others : Alternative → List Terminal}
    (same : ∀ a k, k ∈ starts a ↔ k ∈ others a) : overlap? starts = overlap? others := by
  have shared (a b : Alternative) :
      shared? (starts a) (starts b) = shared? (others a) (others b) := by
    simp only [shared?, List.contains_eq_mem, same]
  funext r
  simp only [overlap?, List.zipIdx_map, ← List.map_drop, List.findSome?_map, Function.comp_def,
    Prod.map, id, shared]

/-- Looked up or searched for, the first flaw is the same. -/
theorem Distinct.flaw?_eq_tabledFlaw? (hg : g.Distinct) : g.flaw? = g.tabledFlaw? := by
  unfold flaw? tabledFlaw?
  rw [← hg.leftRecursive_eq]
  cases found : g.rules.findSome? (leftRecursion? (g.leftRecursive g.nullable)) with
  | some flaw => simp
  | none =>
    -- only after this check does the search for first terminals turn back nowhere
    have acyclic := not_transGen_of_leftRecursion? (List.findSome?_eq_none_iff.1 found)
    have same : overlap? (g.firstAlong g.nullable []) = overlap? g.firstOf :=
      overlap?_congr fun a k => (hg.mem_firstAlong_iff_begins acyclic).trans mem_firstOf.symm
    rw [same]

theorem flaw?_merge {root : NonTerminal} {rules : List Rule} :
    flaw? ⟨root, merge rules⟩ = tabledFlaw? ⟨root, merge rules⟩ :=
  (distinct_merge root rules).flaw?_eq_tabledFlaw?

end Grammar

end TradeScript
