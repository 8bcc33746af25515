import TradeScript.Path.Normal
import TradeScript.Proofs.Text.Lines

/-!
# Normal paths are told apart by their text

The components of a normal path are the reduced components of the path that it comes from
(`Path.components_normalize`), so that its text can be found again from its components. Two normal
paths that stand for the same file are written alike (`Path.IsNormal.eq_of_beq`), and a normal path is
its own normal path (`Path.IsNormal.normalize_eq`).
-/

namespace TradeScript

namespace Path

open Text

namespace Component

/-- A component that is written as one segment and read back from it. -/
def Proper (component : Component) : Prop :=
  ofSegment? component.chars = some component ∧ '/' ∉ component.chars

theorem Proper.chars_ne {component : Component} (h : component.Proper) :
    component.chars ≠ [] ∧ component.chars ≠ ['.'] := by
  have read := h.1
  unfold ofSegment? at read
  split at read
  · cases read
  · next visible => exact not_or.1 visible

theorem proper_of_ofSegment? {segment : List Char} {component : Component}
    (h : ofSegment? segment = some component) (absent : '/' ∉ segment) : component.Proper := by
  have read := h
  unfold ofSegment? at h
  split at h
  · cases h
  · split at h
    · cases h
      exact ⟨rfl, by decide⟩
    · cases h
      exact ⟨read, absent⟩

/-- The components of a text are proper, but for a root or a dot. -/
theorem proper_of_mem_componentsOf {cs : List Char} {component : Component}
    (h : component ∈ componentsOf cs) : component.Proper ∨ component = root ∨ component = here := by
  unfold componentsOf at h
  split at h
  · cases h
  · next first others segments =>
    have of_segment {segment : List Char} (here : segment ∈ split '/' cs)
        (read : ofSegment? segment = some component) : component.Proper :=
      proper_of_ofSegment? read (mem_split here)
    have of_body (here : component ∈ others.filterMap ofSegment?) : component.Proper := by
      obtain ⟨segment, mem, read⟩ := List.mem_filterMap.1 here
      exact of_segment (by rw [segments]; exact List.mem_cons_of_mem _ mem) read
    dsimp only at h
    split at h
    · rcases List.mem_cons.1 h with is_root | h
      · exact .inr (.inl is_root)
      · exact .inl (of_body h)
    · split at h
      · rcases List.mem_cons.1 h with is_here | h
        · exact .inr (.inr is_here)
        · exact .inl (of_body h)
      · rcases List.mem_append.1 h with h | h
        · exact .inl (of_segment (by rw [segments]; exact List.mem_cons_self) (Option.mem_toList.1 h))
        · exact .inl (of_body h)

/-- Reduced components, last first: proper ones above a root or above nothing. -/
def Stacked (reduced : List Component) : Prop :=
  ∃ others bottom, reduced = others ++ bottom ∧ (bottom = [] ∨ bottom = [root]) ∧
    ∀ component ∈ others, component.Proper

theorem Stacked.cons {component : Component} {reduced : List Component} (proper : component.Proper)
    (h : Stacked reduced) : Stacked (component :: reduced) := by
  obtain ⟨others, bottom, rfl, is_bottom, all⟩ := h
  exact ⟨component :: others, bottom, rfl, is_bottom, List.forall_mem_cons.2 ⟨proper, all⟩⟩

theorem Stacked.of_cons_name {text : List Char} {before : List Component}
    (h : Stacked (name text :: before)) : Stacked before := by
  obtain ⟨others, bottom, whole, is_bottom, all⟩ := h
  cases others with
  | nil => rcases is_bottom with rfl | rfl <;> cases whole
  | cons first others =>
    obtain ⟨-, rfl⟩ := List.cons.inj whole
    exact ⟨others, bottom, rfl, is_bottom, fun c mem => all c (List.mem_cons_of_mem first mem)⟩

theorem Stacked.reduceStep {reduced : List Component} {next : Component} (h : Stacked reduced)
    (proper : next.Proper ∨ next = root ∨ next = here) : Stacked (reduceStep reduced next) := by
  unfold Component.reduceStep
  split
  · exact ⟨[], [root], rfl, .inr rfl, by simp⟩
  · exact h
  · split
    · exact h.of_cons_name
    · exact h
    · exact h.cons ⟨rfl, by decide⟩
  · exact h.cons (proper.resolve_right (by simp))

theorem stacked_reduce {components : List Component}
    (proper : ∀ c ∈ components, c.Proper ∨ c = root ∨ c = here) :
    Stacked (reduce components).reverse := by
  have steps (reduced : List Component) (h : Stacked reduced) :
      Stacked (components.foldl Component.reduceStep reduced) := by
    induction components generalizing reduced with
    | nil => exact h
    | cons next components ih =>
      rw [List.forall_mem_cons] at proper
      exact ih proper.2 _ (h.reduceStep proper.1)
  rw [reduce, List.reverse_reverse]
  exact steps [] ⟨[], [], rfl, .inl rfl, by simp⟩

theorem filterMap_ofSegment? {components : List Component} (proper : ∀ c ∈ components, c.Proper) :
    (components.map chars).filterMap ofSegment? = components := by
  induction components with
  | nil => rfl
  | cons c components ih =>
    rw [List.forall_mem_cons] at proper
    rw [List.map_cons, List.filterMap_cons, proper.1.1, ih proper.2]

theorem slash_not_mem_chars {components : List Component} (proper : ∀ c ∈ components, c.Proper) :
    ∀ piece ∈ components.map chars, '/' ∉ piece := by
  simpa using fun c mem => (proper c mem).2

/-- Proper components are read back from their text behind a root. -/
theorem componentsOf_render_root {components : List Component}
    (proper : ∀ c ∈ components, c.Proper) :
    componentsOf (render (root :: components)) = root :: components := by
  have segments : split '/' (render (root :: components)) =
      [] :: split '/' (Text.join ['/'] (components.map chars)) := by simp [render, split]
  have body : (split '/' (Text.join ['/'] (components.map chars))).filterMap ofSegment? =
      components := by
    cases components with
    | nil => rfl
    | cons c components =>
      rw [split_join (by simp) (slash_not_mem_chars proper), filterMap_ofSegment? proper]
  unfold componentsOf
  rw [segments]
  dsimp only
  rw [body]
  exact if_pos rfl

/-- Proper components are read back from their text. -/
theorem componentsOf_render {components : List Component} (proper : ∀ c ∈ components, c.Proper) :
    componentsOf (render components) = components := by
  cases components with
  | nil => rfl
  | cons c components =>
    have plain : render (c :: components) = Text.join ['/'] ((c :: components).map chars) := by
      cases c with
      | root => exact absurd rfl (proper root List.mem_cons_self).chars_ne.1
      | _ => rfl
    obtain ⟨first_proper, others_proper⟩ := List.forall_mem_cons.1 proper
    obtain ⟨visible, other⟩ := first_proper.chars_ne
    have relative : (Text.join ['/'] ((c :: components).map chars)).head? ≠ some '/' := by
      obtain ⟨d, ds, text⟩ := List.exists_cons_of_ne_nil visible
      have not_slash : d ≠ '/' := by
        rintro rfl
        exact first_proper.2 (by rw [text]; exact List.mem_cons_self)
      cases components <;> simpa [Text.join, text] using not_slash
    rw [plain]
    unfold componentsOf
    rw [split_join (by simp) (slash_not_mem_chars proper), List.map_cons]
    dsimp only
    rw [if_neg (by simpa using relative), if_neg other, first_proper.1,
      filterMap_ofSegment? others_proper]
    rfl

/-- Reduced components, last first, that stay as they are when they are reduced again. -/
def Kept (reduced : List Component) : Prop :=
  reduced.reverse.foldl reduceStep [] = reduced

theorem Kept.cons {c : Component} {reduced : List Component} (h : Kept reduced)
    (stays : Component.reduceStep reduced c = c :: reduced) : Kept (c :: reduced) := by
  unfold Kept at h ⊢
  rw [List.reverse_cons, List.foldl_append, h]
  exact stays

theorem Kept.of_cons_name {text : List Char} {before : List Component}
    (h : Kept (name text :: before)) : Kept before := by
  unfold Kept at h
  rw [List.reverse_cons, List.foldl_append] at h
  exact (List.cons.inj h).2

theorem Kept.reduceStep {reduced : List Component} (h : Kept reduced) (next : Component) :
    Kept (reduceStep reduced next) := by
  cases next with
  | root => rfl
  | here => exact h
  | name text => exact h.cons rfl
  | up =>
    rcases reduced with _ | ⟨top, before⟩
    · rfl
    · cases top with
      | name text => exact h.of_cons_name
      | root => exact h
      | here => exact h.cons rfl
      | up => exact h.cons rfl

theorem reduce_reduce (components : List Component) :
    reduce (reduce components) = reduce components := by
  have steps (reduced : List Component) (h : Kept reduced) :
      Kept (components.foldl Component.reduceStep reduced) := by
    induction components generalizing reduced with
    | nil => exact h
    | cons next components ih => exact ih _ (h.reduceStep next)
  exact congrArg List.reverse (steps [] rfl)

end Component

/-! ## The components of a normal path -/

/-- The components of a normal path are the reduced components of the path that it comes from. -/
theorem components_normalize (p : Path) :
    p.normalize.components = Component.reduce p.components := by
  obtain ⟨others, bottom, whole, is_bottom, proper⟩ :=
    Component.stacked_reduce fun (c : Component) (mem : c ∈ p.components) =>
      Component.proper_of_mem_componentsOf mem
  have reduced : Component.reduce p.components = bottom.reverse ++ others.reverse := by
    rw [← List.reverse_append, ← whole, List.reverse_reverse]
  have proper' : ∀ c ∈ others.reverse, c.Proper := by simpa using proper
  rw [normalize, components, chars, ofChars, String.toList_ofList, reduced]
  rcases is_bottom with rfl | rfl
  · exact Component.componentsOf_render proper'
  · exact Component.componentsOf_render_root proper'

/-- A path that has no dots and no `..` to cancel. -/
def IsNormal (p : Path) : Prop :=
  ∃ q : Path, q.normalize = p

theorem isNormal_normalize (p : Path) : p.normalize.IsNormal :=
  ⟨p, rfl⟩

theorem isNormal_resolve (script : Path) (target : String) : (script.resolve target).IsNormal :=
  ⟨_, rfl⟩

theorem normalize_normalize (p : Path) : p.normalize.normalize = p.normalize := by
  rw [normalize, components_normalize, Component.reduce_reduce]
  rfl

theorem IsNormal.normalize_eq {p : Path} (h : p.IsNormal) : p.normalize = p := by
  obtain ⟨q, rfl⟩ := h
  exact q.normalize_normalize

theorem IsNormal.eq_of_beq {p q : Path} (hp : p.IsNormal) (hq : q.IsNormal)
    (same : (p == q) = true) : p = q := by
  obtain ⟨p, rfl⟩ := hp
  obtain ⟨q, rfl⟩ := hq
  have reduced := beq_iff.1 same
  rw [components_normalize, components_normalize] at reduced
  rw [normalize, normalize, reduced]

theorem IsNormal.beq_iff_eq {p q : Path} (hp : p.IsNormal) (hq : q.IsNormal) :
    (p == q) = true ↔ p = q :=
  ⟨hp.eq_of_beq hq, fun same => same ▸ BEq.rfl⟩

theorem IsNormal.contains_iff_mem {p : Path} {paths : List Path} (hp : p.IsNormal)
    (normal : ∀ q ∈ paths, q.IsNormal) : paths.contains p = true ↔ p ∈ paths := by
  rw [List.contains_iff_exists_mem_beq]
  constructor
  · rintro ⟨q, mem, same⟩
    rwa [hp.eq_of_beq (normal q mem) same]
  · exact fun mem => ⟨p, mem, BEq.rfl⟩

/-- Normal paths that are written differently stand for different files. -/
theorem pairwise_of_nodup {paths : List Path} (distinct : paths.Nodup)
    (normal : ∀ p ∈ paths, p.IsNormal) : paths.Pairwise fun p q => (p == q) = false := by
  refine distinct.imp_of_mem fun {p q} mem mem' ne => ?_
  rw [Bool.eq_false_iff]
  exact fun same => ne ((normal p mem).eq_of_beq (normal q mem') same)

end Path

end TradeScript
