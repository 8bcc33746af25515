import TradeScript.Proofs.Grammar.Context
import TradeScript.Tree.Parsing

/-!
# The matcher decides by the next token

On a decisive grammar no decision of the matcher is ever regretted (`Matching.phrase_decides`). What
it rejects cannot stand before anything that may follow; what it takes is derivable, and nothing
is lost by taking exactly that much; and where it fails, the tokens taken so far can be continued,
but not by the token at hand, and they are not complete if the tokens end there.

All this is said of the token at hand alone: the tokens after it are replaced by arbitrary ones
(`Ahead`).
-/

open Computability

namespace TradeScript

open Grammar

/-- A sequence of kinds that begins with the kind of the next token, and is empty if there is
none. -/
def Ahead (ks : List Terminal) (tokens : List Token) : Prop :=
  ks.head? = tokens.head?.map Token.kind

theorem ahead_cons (t : Token) (ks : List Terminal) (rest : List Token) :
    Ahead (t.kind :: ks) (t :: rest) :=
  rfl

theorem ahead_map (tokens : List Token) : Ahead (tokens.map Token.kind) tokens := by
  simp [Ahead]

theorem Ahead.append {ks : List Terminal} {rest : List Token} (h : Ahead ks rest)
    (taken : List Token) : Ahead (taken.map Token.kind ++ ks) (taken ++ rest) := by
  cases taken with
  | nil => exact h
  | cons t taken => simp [Ahead]

/-! ## What an attempt can tell

In these definitions `here` is the language of what is matched and `after` that of what may follow.
-/

/-- Nothing can be matched at the token at hand. -/
def Refused (here after : Language Terminal) (tokens : List Token) : Prop :=
  ∀ ks, Ahead ks tokens → ks ∉ here * after

/-- Some tokens begin a match, which does not go on with the token at hand. At least one token is
taken unless the attempt was committed before. -/
def Stuck (here after : Language Terminal) (committed : Bool) (tokens rest : List Token) : Prop :=
  ∃ taken, tokens = taken ++ rest ∧ (committed = false → taken ≠ []) ∧
    (∃ ks, taken.map Token.kind ++ ks ∈ here) ∧
    ∀ ks, Ahead ks rest → taken.map Token.kind ++ ks ∉ here * after

/-- Some tokens are a match, and whatever can be matched with the token at hand after them can be
matched by them and what follows. -/
def Settled (here after : Language Terminal) (tokens rest : List Token) (moved : Bool) : Prop :=
  ∃ taken, tokens = taken ++ rest ∧ (moved = false ↔ taken = []) ∧
    taken.map Token.kind ∈ here ∧
    ∀ ks, Ahead ks rest → taken.map Token.kind ++ ks ∈ here * after → ks ∈ after

/-- What an attempt tells about the tokens; a committed one does not reject. -/
def Outcome.Decides {α : Type} {tokens : List Token} (here after : Language Terminal)
    (committed : Bool) : Outcome α tokens → Prop
  | rejected => committed = false ∧ Refused here after tokens
  | failed _ rest => Stuck here after committed tokens rest
  | matched _ rest moved _ => Settled here after tokens rest moved

section

variable {here there after : Language Terminal} {committed moved moved' : Bool}
  {tokens middle rest : List Token}

theorem Refused.stuck (h : Refused here after tokens) (some : ∃ ks, ks ∈ here) :
    Stuck here after true tokens tokens :=
  ⟨[], rfl, by simp, some, h⟩

theorem Stuck.commit (h : Stuck here after false tokens rest) (committed : Bool) :
    Stuck here after committed tokens rest := by
  obtain ⟨taken, split, nonempty, more⟩ := h
  exact ⟨taken, split, fun _ => nonempty rfl, more⟩

theorem Settled.mem_of_still (h : Settled here after tokens rest false) : [] ∈ here := by
  obtain ⟨taken, -, still, mem, -⟩ := h
  rw [still.1 rfl] at mem
  exact mem

/-! ### One match after another -/

theorem Refused.mul (h : Refused here (there * after) tokens) :
    Refused (here * there) after tokens := by
  intro ks ahead
  rw [mul_assoc]
  exact h ks ahead

theorem Stuck.mul (h : Stuck here (there * after) committed tokens rest)
    (some : ∃ ks, ks ∈ there) : Stuck (here * there) after committed tokens rest := by
  obtain ⟨taken, split, nonempty, ⟨ks, begins⟩, stops⟩ := h
  obtain ⟨ls, mem⟩ := some
  refine ⟨taken, split, nonempty, ⟨ks ++ ls, ?_⟩, fun ks ahead => ?_⟩
  · rw [← List.append_assoc]
    exact Language.append_mem_mul begins mem
  · rw [mul_assoc]
    exact stops ks ahead

theorem Settled.refused (first : Settled here (there * after) tokens middle false)
    (second : Refused there after middle) : Refused (here * there) after tokens := by
  obtain ⟨taken, rfl, still, -, goes_on⟩ := first
  obtain rfl := still.1 rfl
  intro ks ahead mem
  rw [mul_assoc] at mem
  exact second ks ahead (goes_on ks ahead mem)

theorem Settled.stuck (first : Settled here (there * after) tokens middle moved)
    (second : Stuck there after (committed || moved) middle rest) :
    Stuck (here * there) after committed tokens rest := by
  obtain ⟨front, rfl, still, mem, goes_on⟩ := first
  obtain ⟨back, rfl, nonempty, ⟨ks, begins⟩, stops⟩ := second
  refine ⟨front ++ back, by simp, fun free => ?_, ⟨ks, ?_⟩, fun ks ahead whole => ?_⟩
  · cases moved with
    | false => simp [nonempty (by simp [free])]
    | true => simp [← still]
  · rw [List.map_append, List.append_assoc]
    exact Language.append_mem_mul mem begins
  · rw [List.map_append, List.append_assoc, mul_assoc] at whole
    exact stops ks ahead (goes_on _ (ahead.append back) whole)

theorem Settled.mul (first : Settled here (there * after) tokens middle moved)
    (second : Settled there after middle rest moved') :
    Settled (here * there) after tokens rest (moved || moved') := by
  obtain ⟨front, rfl, still, mem, goes_on⟩ := first
  obtain ⟨back, rfl, still', mem', goes_on'⟩ := second
  refine ⟨front ++ back, by simp, ?_, ?_, fun ks ahead whole => ?_⟩
  · rw [Bool.or_eq_false_iff, still, still', List.append_eq_nil_iff]
  · rw [List.map_append]
    exact Language.append_mem_mul mem mem'
  · rw [List.map_append, List.append_assoc, mul_assoc] at whole
    exact goes_on' ks ahead (goes_on _ (ahead.append back) whole)

/-! ### One token -/

theorem refused_terminal {k : Terminal} (h : tokens.head?.map Token.kind ≠ some k) :
    Refused {[k]} after tokens := by
  rintro ks ahead ⟨_, rfl, ls, -, rfl⟩
  exact h ahead.symm

theorem settled_terminal {k : Terminal} {t : Token} (h : t.kind = k) :
    Settled {[k]} after (t :: rest) rest true := by
  subst h
  refine ⟨[t], rfl, by simp, rfl, ?_⟩
  rintro ks - ⟨_, rfl, ls, mem, whole⟩
  obtain ⟨-, rfl⟩ := List.cons.inj whole
  exact mem

/-! ### Matches that may be missing -/

theorem Settled.nothing (tokens : List Token) : Settled 1 after tokens tokens false :=
  ⟨[], rfl, by simp, rfl, fun ks _ mem => by rwa [one_mul] at mem⟩

theorem Refused.one_add (h : Refused here after tokens) :
    Settled (1 + here) after tokens tokens false := by
  refine ⟨[], rfl, by simp, .inl rfl, fun ks ahead mem => ?_⟩
  rw [List.map_nil, List.nil_append, add_mul, one_mul, Language.mem_add] at mem
  exact mem.resolve_right (h ks ahead)

theorem Stuck.one_add (h : Stuck here after false tokens rest)
    (apart : ∀ k ks ls, k :: ks ∈ here → k :: ls ∉ after) :
    Stuck (1 + here) after committed tokens rest := by
  obtain ⟨taken, split, nonempty, ⟨ks, begins⟩, stops⟩ := h
  refine ⟨taken, split, fun _ => nonempty rfl, ⟨ks, .inr begins⟩, fun ls ahead mem => ?_⟩
  rw [add_mul, one_mul, Language.mem_add] at mem
  refine mem.elim ?_ (stops ls ahead)
  cases taken with
  | nil => exact absurd rfl (nonempty rfl)
  | cons t taken => exact apart _ _ _ begins

theorem Settled.one_add (h : Settled here after tokens rest moved)
    (apart : ∀ k ks ls, k :: ks ∈ here → k :: ls ∉ after) :
    Settled (1 + here) after tokens rest moved := by
  obtain ⟨taken, split, still, mem, goes_on⟩ := h
  refine ⟨taken, split, still, .inr mem, fun ls ahead whole => ?_⟩
  rw [add_mul, one_mul, Language.mem_add] at whole
  refine whole.elim (fun missing => ?_) (goes_on ls ahead)
  cases taken with
  | nil => exact missing
  | cons t taken => exact absurd missing (apart _ _ _ mem)

end

namespace Matching

variable {g : Grammar}

/-- Two matches in a row do not begin like what follows if the first one does not. -/
theorem apart_mul {here after : Language Terminal} (there : Language Terminal)
    (element : [] ∉ here) (apart : ∀ k ks ls, k :: ks ∈ here → k :: ls ∉ after) (k : Terminal)
    (ks ls : List Terminal) (mem : k :: ks ∈ here * there) : k :: ls ∉ after := by
  obtain ⟨front, mem_front, back, -, whole⟩ := Language.mem_mul.1 mem
  cases front with
  | nil => exact absurd mem_front element
  | cons l front =>
    obtain ⟨rfl, -⟩ := List.cons.inj whole
    exact apart _ _ _ mem_front

/-- Phrases entered before a part count for the parts after it unless it has taken a token. -/
theorem fronts_after {entered : List NonTerminal} {p : Part} {others : List Part}
    {after : Language Terminal} {tokens middle : List Token} {moved : Bool}
    (first : Settled (g.language (.part p)) after tokens middle moved)
    (fronts : ∀ e ∈ entered, ∀ m, g.Opens m (p :: others) → Relation.TransGen g.Front e m) :
    ∀ e ∈ enteredAfter moved entered, ∀ m, g.Opens m others → Relation.TransGen g.Front e m := by
  intro e mem m opens
  cases moved with
  | true => cases mem
  | false => exact fronts e mem m (.inr ⟨first.mem_of_still, opens⟩)

/-- An alternative that can take a token can be followed by all that can follow the phrase. -/
theorem mem_alternative (hg : g.Decisive) {n : NonTerminal} {a : Alternative}
    {after : Language Terminal} (context : g.Context (.nonTerminal n) after)
    (mem_a : a ∈ g.alternatives n) {k : Terminal}
    {ks ls : List Terminal} (here : k :: ks ∈ g.language (.parts a))
    (whole : k :: ls ∈ g.language (.symbol (.nonTerminal n)) * after) :
    k :: ls ∈ g.language (.parts a) * after := by
  obtain ⟨b, mem_b, whole⟩ := mem_language_phrase_mul.1 whole
  obtain ⟨front, mem_front, back, mem_back, split⟩ := Language.mem_mul.1 whole
  cases front with
  | nil =>
    obtain rfl : back = k :: ls := split
    exact hg.greedy context mem_a mem_b here mem_front mem_back
  | cons l front =>
    obtain ⟨rfl, -⟩ := List.cons.inj split
    obtain ⟨i, at_i⟩ := List.mem_iff_getElem?.1 mem_a
    obtain ⟨j, at_j⟩ := List.mem_iff_getElem?.1 mem_b
    obtain rfl := hg.disjoint at_i at_j here mem_front
    rw [at_i] at at_j
    rwa [Option.some.inj at_j]

theorem stuck_phrase (hg : g.Decisive) {n : NonTerminal} {a : Alternative}
    {after : Language Terminal} (context : g.Context (.nonTerminal n) after)
    (mem : a ∈ g.alternatives n)
    {tokens rest : List Token} (body : Stuck (g.language (.parts a)) after false tokens rest) :
    Stuck (g.language (.symbol (.nonTerminal n))) after false tokens rest := by
  obtain ⟨taken, split, nonempty, ⟨ks, begins⟩, stops⟩ := body
  refine ⟨taken, split, nonempty, ⟨ks, .phrase mem begins⟩, fun ls ahead whole => ?_⟩
  cases taken with
  | nil => exact nonempty rfl rfl
  | cons t taken => exact stops ls ahead (mem_alternative hg context mem begins whole)

theorem settled_phrase (hg : g.Decisive) {n : NonTerminal} {tried others : List Alternative}
    {a : Alternative} {after : Language Terminal} (context : g.Context (.nonTerminal n) after)
    (all : g.alternatives n = tried ++ a :: others) {tokens rest : List Token} {moved : Bool}
    (past : ∀ b ∈ tried, Refused (g.language (.parts b)) after tokens)
    (body : Settled (g.language (.parts a)) after tokens rest moved) :
    Settled (g.language (.symbol (.nonTerminal n))) after tokens rest moved := by
  have mem : a ∈ g.alternatives n := by simp [all]
  obtain ⟨taken, rfl, still, here, goes_on⟩ := body
  refine ⟨taken, rfl, still, .phrase mem here, fun ks ahead whole => goes_on ks ahead ?_⟩
  cases taken with
  | cons t taken => exact mem_alternative hg context mem here whole
  | nil =>
    -- an empty alternative is the last one, and the others have been passed over
    have at_end : (g.alternatives n)[tried.length]? = some a := by simp [all]
    have last := hg.emptyLast at_end here
    obtain ⟨b, mem_b, whole⟩ := mem_language_phrase_mul.1 whole
    rw [all] at mem_b last
    have none_left : others = [] := by simpa using last
    rw [none_left, List.mem_append, List.mem_singleton] at mem_b
    rcases mem_b with before | rfl
    · exact absurd whole (past b before ks ahead)
    · exact whole

mutual

theorem phrase_decides (hg : g.Decisive) (entered : List NonTerminal) (n : NonTerminal)
    (tokens : List Token) {after : Language Terminal} (context : g.Context (.nonTerminal n) after)
    (fronts : ∀ e ∈ entered, Relation.TransGen g.Front e n) :
    (phrase g entered n tokens).Decides (g.language (.symbol (.nonTerminal n))) after false := by
  have new : n ∉ entered := fun mem => hg.acyclic n (fronts n mem)
  rw [phrase, dif_neg new]
  refine alternatives_decides hg (n :: entered) n [] (g.alternatives n) tokens rfl (by simp)
    context ?_
  rintro e mem m opens
  rcases List.mem_cons.1 mem with rfl | mem
  · exact .single opens
  · exact (fronts e mem).tail opens
  termination_by (tokens.length, unentered entered, 0, 0)
  decreasing_by
    exact Prod.Lex.right _ (Prod.Lex.left _ _ (unentered_cons_lt new))

theorem alternatives_decides (hg : g.Decisive) (entered : List NonTerminal) (n : NonTerminal)
    (tried untried : List Alternative) (tokens : List Token)
    (all : g.alternatives n = tried ++ untried) {after : Language Terminal}
    (past : ∀ a ∈ tried, Refused (g.language (.parts a)) after tokens)
    (context : g.Context (.nonTerminal n) after)
    (fronts : ∀ e ∈ entered, ∀ m, g.Front n m → Relation.TransGen g.Front e m) :
    (alternatives g entered n tried.length untried tokens).Decides
      (g.language (.symbol (.nonTerminal n))) after false := by
  cases untried with
  | nil =>
    rw [alternatives]
    refine ⟨rfl, fun ks ahead mem => ?_⟩
    obtain ⟨a, mem_a, mem⟩ := mem_language_phrase_mul.1 mem
    exact past a (by simpa [all] using mem_a) ks ahead mem
  | cons a others =>
    have mem : a ∈ g.alternatives n := by simp [all]
    have body := parts_decides hg entered false a tokens context mem (List.suffix_refl a)
      fun e he m opens => fronts e he m ⟨a, mem, opens⟩
    rw [alternatives]
    cases outcome : parts g entered false a tokens with
    | rejected =>
      rw [outcome] at body
      have next := alternatives_decides hg entered n (tried ++ [a]) others tokens (by simp [all])
        (by simpa [or_imp, forall_and] using ⟨past, body.2⟩) context fronts
      simpa using next
    | failed misfit rest =>
      rw [outcome] at body
      exact stuck_phrase hg context mem body
    | matched children rest moved le =>
      rw [outcome] at body
      exact settled_phrase hg context all past body
  termination_by (tokens.length, unentered entered, 5, untried.length)

theorem parts_decides (hg : g.Decisive) (entered : List NonTerminal) (committed : Bool)
    (remaining : List Part) (tokens : List Token) {n : NonTerminal} {a : Alternative}
    {after : Language Terminal} (context : g.Context (.nonTerminal n) after)
    (mem : a ∈ g.alternatives n) (place : remaining <:+ a)
    (fronts : ∀ e ∈ entered, ∀ m, g.Opens m remaining → Relation.TransGen g.Front e m) :
    (parts g entered committed remaining tokens).Decides (g.language (.parts remaining)) after
      committed := by
  match remaining, place, fronts with
  | [], _, _ =>
    rw [parts, language_nil]
    exact Settled.nothing tokens
  | p :: others, place, fronts =>
    have first := part_decides hg entered committed p tokens context mem place
      fun e he m opens => fronts e he m (.inl opens)
    rw [parts, language_cons]
    cases outcome : part g entered committed p tokens with
    | rejected =>
      rw [outcome] at first
      exact ⟨first.1, first.2.mul⟩
    | failed misfit rest =>
      rw [outcome] at first
      exact first.mul (hg.exists_mem (.parts others))
    | matched front middle moved le =>
      rw [outcome] at first
      have second := parts_decides hg (enteredAfter moved entered) (committed || moved) others
        middle context mem ((List.suffix_cons p others).trans place) (fronts_after first fronts)
      dsimp only
      cases outcome' : parts g (enteredAfter moved entered) (committed || moved) others middle with
      | rejected =>
        rw [outcome'] at second
        obtain ⟨free, refused⟩ := second
        rw [Bool.or_eq_false_iff] at free
        obtain ⟨rfl, rfl⟩ := free
        exact ⟨rfl, first.refused refused⟩
      | failed misfit rest =>
        rw [outcome'] at second
        exact first.stuck second
      | matched back rest moved' le' =>
        rw [outcome'] at second
        exact first.mul second
  termination_by (tokens.length, unentered entered, 4, remaining.length)
  decreasing_by
    · exact before_of_phase (by decide)
    · cases moved
      · exact before_of_le le (Nat.le_refl _) (.inr ⟨rfl, Nat.lt_succ_self _⟩)
      · exact before_of_lt le

theorem part_decides (hg : g.Decisive) (entered : List NonTerminal) (committed : Bool) (p : Part)
    (tokens : List Token) {n : NonTerminal} {a : Alternative} {others : List Part}
    {after : Language Terminal} (context : g.Context (.nonTerminal n) after)
    (mem : a ∈ g.alternatives n) (place : p :: others <:+ a)
    (fronts : ∀ e ∈ entered, ∀ m, p.symbol = .nonTerminal m → Relation.TransGen g.Front e m) :
    (part g entered committed p tokens).Decides (g.language (.part p))
      (g.language (.parts others) * after) committed := by
  have inner := Context.within context mem place
  obtain ⟨s, repeated⟩ := p
  have apart : repeated ≠ .once → ∀ k ks ls, k :: ks ∈ g.language (.symbol s) →
      k :: ls ∉ g.language (.parts others) * after :=
    fun loose k ks ls here => hg.apart context mem place loose here
  rw [part]
  cases repeated with
  | once =>
    have one := symbol_decides hg entered s tokens (by simpa [again] using inner) fronts
    rw [language_once]
    cases outcome : symbol g entered s tokens with
    | rejected =>
      rw [outcome] at one
      cases committed with
      | false => exact one
      | true => exact one.2.stuck (hg.exists_mem (.symbol s))
    | failed misfit rest =>
      rw [outcome] at one
      exact one.commit committed
    | matched t rest moved le =>
      rw [outcome] at one
      exact one
  | optional =>
    have one := symbol_decides hg entered s tokens (by simpa [again] using inner) fronts
    rw [language_optional]
    cases outcome : symbol g entered s tokens with
    | rejected =>
      rw [outcome] at one
      exact one.2.one_add
    | failed misfit rest =>
      rw [outcome] at one
      exact one.one_add (apart (by decide))
    | matched t rest moved le =>
      rw [outcome] at one
      exact one.one_add (apart (by decide))
  | many =>
    rw [language_repeated]
    exact many_decides hg entered s tokens inner (apart (by decide))
      (hg.element mem (place.subset List.mem_cons_self) (.inl rfl)) fronts committed
  | separated =>
    have comma : ∀ ls, .mark .comma :: ls ∉ g.language (.parts others) * after :=
      fun ls => hg.comma context mem place rfl
    have list_apart := apart_mul (g.language (.further s))
      (hg.element mem (place.subset List.mem_cons_self) (.inr rfl)) (apart (by decide))
    have first := symbol_decides hg entered s tokens inner fronts
    rw [language_separated]
    cases outcome : symbol g entered s tokens with
    | rejected =>
      rw [outcome] at first
      exact first.2.mul.one_add
    | failed misfit rest =>
      rw [outcome] at first
      exact (first.mul ⟨[], .furtherNil s⟩).one_add list_apart
    | matched t middle moved le =>
      rw [outcome] at first
      have second := further_decides hg s middle inner comma
      dsimp only
      cases outcome' : further g s middle with
      | rejected =>
        rw [outcome'] at second
        exact absurd (second true).1 (by decide)
      | failed misfit rest =>
        rw [outcome'] at second
        exact (first.stuck (second (false || moved))).one_add list_apart
      | matched others rest moved' le' =>
        rw [outcome'] at second
        exact (first.mul (second false)).one_add list_apart
  termination_by (tokens.length, unentered entered, 3, 0)
  decreasing_by
    all_goals first
      | exact before_of_phase (by decide)
      | exact before_of_le (length_le_of_matched ‹_›) (Nat.zero_le _) (.inl (by decide))

theorem symbol_decides (hg : g.Decisive) (entered : List NonTerminal) (s : Symbol)
    (tokens : List Token) {after : Language Terminal} (context : g.Context s after)
    (fronts : ∀ e ∈ entered, ∀ m, s = .nonTerminal m → Relation.TransGen g.Front e m) :
    (symbol g entered s tokens).Decides (g.language (.symbol s)) after false := by
  rw [symbol.eq_def]
  cases s with
  | nonTerminal n => exact phrase_decides hg entered n tokens context fun e he => fronts e he n rfl
  | terminal k =>
    rw [language_terminal]
    cases tokens with
    | nil => exact ⟨rfl, refused_terminal (by simp)⟩
    | cons t rest =>
      dsimp only
      split
      · next kind => exact settled_terminal kind
      · next kind => exact ⟨rfl, refused_terminal (by simpa using kind)⟩
  termination_by (tokens.length, unentered entered, 1, 0)
  decreasing_by exact before_of_phase (by decide)

theorem many_decides (hg : g.Decisive) (entered : List NonTerminal) (s : Symbol)
    (tokens : List Token) {after : Language Terminal}
    (context : g.Context s (g.language (.many s) * after))
    (apart : ∀ k ks ls, k :: ks ∈ g.language (.symbol s) → k :: ls ∉ after)
    (element : [] ∉ g.language (.symbol s))
    (fronts : ∀ e ∈ entered, ∀ m, s = .nonTerminal m → Relation.TransGen g.Front e m)
    (committed : Bool) :
    (many g entered s tokens).Decides (g.language (.many s)) after committed := by
  have some_apart := apart_mul (g.language (.many s)) element apart
  have first := symbol_decides hg entered s tokens context fronts
  rw [many, language_many]
  cases outcome : symbol g entered s tokens with
  | rejected =>
    rw [outcome] at first
    exact first.2.mul.one_add
  | failed misfit rest =>
    rw [outcome] at first
    exact (first.mul ⟨[], .manyNil s⟩).one_add some_apart
  | matched t middle moved le =>
    rw [outcome] at first
    cases moved with
    | false => exact absurd first.mem_of_still element
    | true =>
      have second := many_decides hg [] s middle context apart element (by simp)
      dsimp only
      cases outcome' : many g [] s middle with
      | rejected =>
        rw [outcome'] at second
        exact absurd (second true).1 (by decide)
      | failed misfit rest =>
        rw [outcome'] at second
        exact (first.stuck (second (false || true))).one_add some_apart
      | matched others rest moved' le' =>
        rw [outcome'] at second
        exact (first.mul (second false)).one_add some_apart
  termination_by (tokens.length, unentered entered, 2, 0)
  decreasing_by
    · exact before_of_phase (by decide)
    · exact before_of_lt le

theorem further_decides (hg : g.Decisive) (s : Symbol) (tokens : List Token)
    {after : Language Terminal} (context : g.Context s (g.language (.further s) * after))
    (comma : ∀ ls, .mark .comma :: ls ∉ after) (committed : Bool) :
    (further g s tokens).Decides (g.language (.further s)) after committed := by
  have comma_apart : ∀ k ks ls, k :: ks ∈ ({[.mark .comma]} : Language Terminal) *
      (g.language (.symbol s) * g.language (.further s)) → k :: ls ∉ after := by
    refine apart_mul _ (List.cons_ne_nil _ _).symm ?_
    rintro k ks ls ⟨⟩
    exact comma ls
  rw [further.eq_def, language_further]
  cases tokens with
  | nil => exact (refused_terminal (by simp)).mul.one_add
  | cons t tokens =>
    dsimp only
    split
    · next kind =>
      have first := symbol_decides hg [] s tokens context (by simp)
      cases outcome : symbol g [] s tokens with
      | rejected =>
        rw [outcome] at first
        have here := first.2.mul.stuck (hg.exists_mem_mul (.symbol s) (.further s))
        exact ((settled_terminal kind).stuck here).one_add comma_apart
      | failed misfit rest =>
        rw [outcome] at first
        have here := (first.mul ⟨[], .furtherNil s⟩).commit true
        exact ((settled_terminal kind).stuck here).one_add comma_apart
      | matched t middle moved le =>
        rw [outcome] at first
        have second := further_decides hg s middle context comma
        dsimp only
        cases outcome' : further g s middle with
        | rejected =>
          rw [outcome'] at second
          exact absurd (second true).1 (by decide)
        | failed misfit rest =>
          rw [outcome'] at second
          have here := first.stuck (second (true || moved))
          exact ((settled_terminal kind).stuck here).one_add comma_apart
        | matched others rest moved' le' =>
          rw [outcome'] at second
          have here := first.mul (second false)
          exact ((settled_terminal kind).mul here).one_add comma_apart
    · next kind => exact (refused_terminal (by simpa using kind)).mul.one_add
  termination_by (tokens.length, 0, 0, 0)
  decreasing_by
    all_goals first
      | exact before_of_lt (Nat.lt_succ_self _)
      | exact before_of_lt (Nat.lt_succ_of_le (length_le_of_matched ‹_›))

end

end Matching

end TradeScript
