import Mathlib.Logic.Relation
import TradeScript.Proofs.Path.Characters
import TradeScript.Proofs.Path.Normal

/-!
# Normal paths are the reduced ones

The components of a path can be simplified in three ways: a dot is dropped, a name and the `..`
directly behind it cancel, and a `..` at the root is dropped (`Path.Component.Simplifies`). No step
changes what `Component.reduce` makes of the components (`Simplifies.reduce_eq`), and steps lead there
from everywhere (`reflTransGen_reduce`). So it does not matter which steps are taken first, and two
paths have one normal path exactly if their components can be simplified to the same ones.

Main statement: `canonical_normalize`.
-/

namespace TradeScript

open Relation

namespace Text

theorem split_append (separator : Char) (cs ds : List Char) :
    split separator (cs ++ separator :: ds) = split separator cs ++ split separator ds := by
  induction cs using split_induct separator with
  | last piece absent => rw [split_append_cons absent, split_eq_singleton absent]; rfl
  | piece piece rest absent ih =>
    rw [List.append_assoc, List.cons_append, split_append_cons absent, split_append_cons absent, ih]
    rfl

theorem split_ne_nil (separator : Char) (cs : List Char) : split separator cs ≠ [] := by
  unfold split
  split
  · simp
  · split
    · simp
    · split <;> simp

end Text

namespace Path

open Text

namespace Component

/-! ## Steps of simplification -/

/-- Some components are simplified in one place. -/
inductive Simplifies : List Component → List Component → Prop
  | dropHere (before after : List Component) :
      Simplifies (before ++ here :: after) (before ++ after)
  | cancel (before : List Component) (text : List Char) (after : List Component) :
      Simplifies (before ++ name text :: up :: after) (before ++ after)
  | dropUp (after : List Component) : Simplifies (root :: up :: after) (root :: after)

variable {cs ds : List Component}

theorem Simplifies.reduce_eq (h : Simplifies cs ds) : reduce cs = reduce ds := by
  cases h with
  | dropHere before after => rw [reduce, reduce, List.foldl_append, List.foldl_append]; rfl
  | cancel before text after => rw [reduce, reduce, List.foldl_append, List.foldl_append]; rfl
  | dropUp after => rfl

theorem reduce_eq_of_reflTransGen (h : ReflTransGen Simplifies cs ds) : reduce cs = reduce ds := by
  induction h with
  | refl => rfl
  | tail _ step ih => exact ih.trans step.reduce_eq

/-- Reduced components, last first: names above a root, or above the `..` of a relative path. -/
def Shaped (absolute : Bool) (reduced : List Component) : Prop :=
  ∃ names n, reduced =
    List.map name names ++ (if absolute then [root] else List.replicate n up)

/-- One more component is a simplification of the components before it. -/
theorem Shaped.step {absolute : Bool} {reduced : List Component} (h : Shaped absolute reduced)
    {next : Component} (inner : next ≠ root) (after : List Component) :
    Shaped absolute (reduceStep reduced next) ∧
      ReflTransGen Simplifies (reduced.reverse ++ next :: after)
        ((reduceStep reduced next).reverse ++ after) := by
  obtain ⟨names, n, rfl⟩ := h
  cases next with
  | root => exact absurd rfl inner
  | here => exact ⟨⟨names, n, rfl⟩, .single (.dropHere _ after)⟩
  | name text =>
    refine ⟨⟨text :: names, n, rfl⟩, ?_⟩
    simpa [reduceStep] using ReflTransGen.refl
  | up =>
    cases names with
    | cons text names =>
      refine ⟨⟨names, n, rfl⟩, .single ?_⟩
      rw [List.map_cons, List.cons_append, List.reverse_cons, List.append_assoc]
      exact .cancel _ text after
    | nil =>
      cases absolute with
      | true => exact ⟨⟨[], n, rfl⟩, .single (.dropUp after)⟩
      | false =>
        have kept : reduceStep (List.replicate n up) up = List.replicate (n + 1) up := by
          cases n <;> rfl
        refine ⟨⟨[], n + 1, kept⟩, ?_⟩
        simpa [kept, List.replicate_succ] using ReflTransGen.refl

theorem Shaped.run {absolute : Bool} {reduced after : List Component} (h : Shaped absolute reduced)
    (inner : root ∉ after) :
    Shaped absolute (after.foldl reduceStep reduced) ∧
      ReflTransGen Simplifies (reduced.reverse ++ after)
        (after.foldl reduceStep reduced).reverse := by
  induction after generalizing reduced with
  | nil => exact ⟨h, by simpa using ReflTransGen.refl⟩
  | cons next after ih =>
    rw [List.mem_cons, not_or] at inner
    obtain ⟨shaped, first⟩ := h.step (Ne.symm inner.1) after
    obtain ⟨shaped', others⟩ := ih shaped inner.2
    exact ⟨shaped', first.trans others⟩

/-- Components of an absolute path begin with a root, and no other component is one. -/
def rooted (absolute : Bool) (inner : List Component) : List Component :=
  if absolute then root :: inner else inner

theorem Shaped.reduce_rooted (absolute : Bool) {inner : List Component} (h : root ∉ inner) :
    Shaped absolute (reduce (rooted absolute inner)).reverse ∧
      ReflTransGen Simplifies (rooted absolute inner) (reduce (rooted absolute inner)) := by
  rw [reduce, List.reverse_reverse]
  cases absolute with
  | true =>
    have start : Shaped true [root] := ⟨[], 0, rfl⟩
    exact start.run h
  | false =>
    have start : Shaped false [] := ⟨[], 0, rfl⟩
    exact start.run h

theorem exists_eq_rooted (h : root ∉ cs.tail) :
    ∃ absolute inner, root ∉ inner ∧ cs = rooted absolute inner := by
  cases cs with
  | nil => exact ⟨false, [], List.not_mem_nil, rfl⟩
  | cons c inner =>
    by_cases is_root : c = root
    · subst is_root
      exact ⟨true, inner, h, rfl⟩
    · exact ⟨false, c :: inner, by simpa [Ne.symm is_root] using h, rfl⟩

/-- Components are simplified to the reduced ones. -/
theorem reflTransGen_reduce (h : root ∉ cs.tail) : ReflTransGen Simplifies cs (reduce cs) := by
  obtain ⟨absolute, inner, none_inside, rfl⟩ := exists_eq_rooted h
  exact (Shaped.reduce_rooted absolute none_inside).2

theorem Simplifies.mem_tail (h : Simplifies cs ds) {c : Component} (mem : c ∈ ds.tail) :
    c ∈ cs.tail := by
  cases h with
  | dropHere before after =>
    cases before with
    | nil => exact List.mem_of_mem_tail mem
    | cons b before =>
      simp only [List.cons_append, List.tail_cons, List.mem_append, List.mem_cons] at mem ⊢
      exact mem.imp_right .inr
  | cancel before text after =>
    cases before with
    | nil => exact List.mem_cons_of_mem up (List.mem_of_mem_tail mem)
    | cons b before =>
      simp only [List.cons_append, List.tail_cons, List.mem_append, List.mem_cons] at mem ⊢
      exact mem.imp_right fun behind => .inr (.inr behind)
  | dropUp after => exact List.mem_cons_of_mem up mem

theorem not_mem_tail_of_reflTransGen (h : ReflTransGen Simplifies cs ds) (start : root ∉ cs.tail) :
    root ∉ ds.tail := by
  induction h with
  | refl => exact start
  | tail _ step ih => exact fun mem => ih (step.mem_tail mem)

theorem Simplifies.length_lt (h : Simplifies cs ds) : ds.length < cs.length := by
  cases h with
  | dropHere before after => simp
  | cancel before text after =>
    rw [List.length_append, List.length_append]
    exact Nat.add_lt_add_left (Nat.lt_succ_of_lt (Nat.lt_succ_self _)) _
  | dropUp after => simp

theorem length_le_of_reflTransGen (h : ReflTransGen Simplifies cs ds) : ds.length ≤ cs.length := by
  induction h with
  | refl => exact Nat.le_refl _
  | tail _ step ih => exact Nat.le_of_lt (step.length_lt.trans_le ih)

/-- Whatever steps are taken, they can be continued until the reduced components are left. -/
theorem irreducible_iff (start : root ∉ cs.tail) (h : ReflTransGen Simplifies cs ds) :
    (∀ es, ¬ Simplifies ds es) ↔ ds = reduce cs := by
  have further := reflTransGen_reduce (not_mem_tail_of_reflTransGen h start)
  rw [← reduce_eq_of_reflTransGen h] at further
  constructor
  · intro done
    rcases further.cases_head with same | ⟨es, step, -⟩
    · exact same
    · exact absurd step (done es)
  · rintro rfl es step
    -- one more step would lead to shorter components that reduce to the same ones
    have again := length_le_of_reflTransGen
      (reflTransGen_reduce (not_mem_tail_of_reflTransGen (h.tail step) start))
    rw [← reduce_eq_of_reflTransGen (h.tail step)] at again
    exact absurd step.length_lt (Nat.not_lt.2 again)

end Component

/-! ## The components of a path -/

theorem Component.ofSegment?_ne_root (segment : List Char) :
    Component.ofSegment? segment ≠ some root := by
  unfold Component.ofSegment?
  split
  · simp
  · split <;> simp

/-- The components behind a slash. -/
def componentsBehind (cs : List Char) : List Component :=
  (split '/' cs).filterMap Component.ofSegment?

theorem componentsOf_slash (cs : List Char) :
    componentsOf ('/' :: cs) = .root :: componentsBehind cs := by
  simp [componentsOf, split, componentsBehind]

theorem componentsOf_append {cs : List Char} (some : cs ≠ []) (ds : List Char) :
    componentsOf (cs ++ '/' :: ds) = componentsOf cs ++ componentsBehind ds := by
  have front : (cs ++ '/' :: ds).head? = cs.head? := List.head?_append_of_ne_nil _ some
  obtain ⟨first, others, segments⟩ := List.exists_cons_of_ne_nil (split_ne_nil '/' cs)
  unfold componentsOf
  rw [split_append, segments, front]
  simp only [List.cons_append, List.filterMap_append, componentsBehind]
  split
  · rfl
  · split
    · rfl
    · rw [List.append_assoc]

/-- Only the dot at the front of a relative path is a component there but not behind a slash. -/
theorem foldl_componentsOf {cs : List Char} (relative : cs.head? ≠ some '/')
    (reduced : List Component) : (componentsOf cs).foldl Component.reduceStep reduced =
      (componentsBehind cs).foldl Component.reduceStep reduced := by
  obtain ⟨first, others, segments⟩ := List.exists_cons_of_ne_nil (split_ne_nil '/' cs)
  unfold componentsOf componentsBehind
  rw [segments]
  dsimp only
  rw [if_neg relative]
  split
  · next dot =>
    subst dot
    rfl
  · rw [List.filterMap_cons]
    cases Component.ofSegment? first <;> rfl

theorem root_not_mem_filterMap (segments : List (List Char)) :
    Component.root ∉ segments.filterMap Component.ofSegment? := by
  rw [List.mem_filterMap]
  rintro ⟨segment, -, is_root⟩
  exact Component.ofSegment?_ne_root segment is_root

theorem components_eq_rooted (p : Path) :
    ∃ inner, Component.root ∉ inner ∧ p.components = Component.rooted p.isAbsolute inner := by
  unfold components isAbsolute
  generalize p.chars = cs
  by_cases absolute : cs.head? = some '/'
  · obtain ⟨ds, rfl⟩ := List.head?_eq_some_iff.1 absolute
    exact ⟨_, root_not_mem_filterMap _, componentsOf_slash ds⟩
  · obtain ⟨first, others, segments⟩ := List.exists_cons_of_ne_nil (split_ne_nil '/' cs)
    refine ⟨componentsOf cs, ?_, by simp [Component.rooted, absolute]⟩
    unfold componentsOf
    rw [segments]
    dsimp only
    rw [if_neg absolute]
    split
    · simpa using root_not_mem_filterMap others
    · rw [List.mem_append, not_or, Option.mem_toList]
      exact ⟨Component.ofSegment?_ne_root first, root_not_mem_filterMap others⟩

theorem root_not_mem_tail (p : Path) : Component.root ∉ p.components.tail := by
  obtain ⟨inner, none_inside, whole⟩ := p.components_eq_rooted
  rw [whole]
  cases p.isAbsolute with
  | true => exact none_inside
  | false => exact fun mem => none_inside (List.mem_of_mem_tail mem)

theorem head?_components_eq_root_iff (p : Path) :
    p.components.head? = some .root ↔ p.isAbsolute = true := by
  obtain ⟨inner, none_inside, whole⟩ := p.components_eq_rooted
  rw [whole]
  cases p.isAbsolute with
  | true => simp [Component.rooted]
  | false => simpa [Component.rooted] using fun h => none_inside (List.mem_of_head? h)

/-! ## The components of a normal path -/

/-- A normal path consists of names below the root, or below the `..` of a relative path. -/
theorem exists_components_normalize (p : Path) : ∃ n names, p.normalize.components =
      (if p.isAbsolute then [.root] else List.replicate n .up) ++ List.map .name names ∧
    ∀ text ∈ names, (Component.name text).Proper := by
  obtain ⟨inner, none_inside, whole⟩ := p.components_eq_rooted
  obtain ⟨names, n, shape⟩ := (Component.Shaped.reduce_rooted p.isAbsolute none_inside).1
  have components : p.normalize.components =
      (if p.isAbsolute then [.root] else List.replicate n .up) ++
        List.map .name names.reverse := by
    rw [components_normalize, whole, ← List.reverse_reverse (Component.reduce _), shape,
      List.reverse_append, List.map_reverse]
    cases p.isAbsolute <;> simp
  refine ⟨n, names.reverse, components, fun text mem => ?_⟩
  have kept : Component.name text ∈ p.components := by
    refine Component.mem_reduce ?_
    rw [← components_normalize, components]
    exact List.mem_append_right _ (List.mem_map_of_mem mem)
  simpa using Component.proper_of_mem_componentsOf kept

theorem isAbsolute_normalize (p : Path) : p.normalize.isAbsolute = p.isAbsolute := by
  obtain ⟨n, names, components, -⟩ := p.exists_components_normalize
  rw [Bool.eq_iff_iff, ← head?_components_eq_root_iff, components]
  cases p.isAbsolute with
  | true => simp
  | false => cases n <;> cases names <;> simp [List.replicate_succ]

theorem normalize_eq_iff_reduce_eq {p q : Path} : p.normalize = q.normalize ↔
    Component.reduce p.components = Component.reduce q.components := by
  constructor
  · intro same
    rw [← components_normalize, ← components_normalize, same]
  · intro same
    rw [normalize, normalize, same]

/-! ## Continued paths -/

/-- The components of a continued path are reduced one path after the other. -/
theorem foldl_components_join (base : Path) {q : Path} (relative : q.isAbsolute = false)
    (reduced : List Component) : (base.join q).components.foldl Component.reduceStep reduced =
      q.components.foldl Component.reduceStep
        (base.components.foldl Component.reduceStep reduced) := by
  have no_slash : q.chars.head? ≠ some '/' := by simpa [isAbsolute] using relative
  have components_of (cs : List Char) : (ofChars cs).components = componentsOf cs := by
    rw [components, ofChars, chars, String.toList_ofList]
  have behind : q.components.foldl Component.reduceStep
        (base.components.foldl Component.reduceStep reduced) = _ :=
    foldl_componentsOf no_slash _
  rw [behind, join]
  by_cases nothing : base.chars = []
  · rw [if_pos (.inr nothing), components, components, nothing]
    exact foldl_componentsOf no_slash reduced
  rw [if_neg (by simp [relative, nothing])]
  split
  · next slash =>
    obtain ⟨front, whole⟩ := List.getLast?_eq_some_iff.1 slash
    rw [components_of, components, whole, List.append_assoc, List.singleton_append]
    by_cases at_root : front = []
    · subst at_root
      rw [List.nil_append, List.nil_append, componentsOf_slash, componentsOf_slash]
      rfl
    · have nothing_behind : componentsBehind [] = [] := rfl
      rw [componentsOf_append at_root, componentsOf_append at_root, List.foldl_append,
        nothing_behind, List.append_nil]
  · rw [components_of, componentsOf_append nothing, List.foldl_append]
    rfl

theorem normalize_join (base : Path) {q : Path} (relative : q.isAbsolute = false) :
    (base.join q).normalize = (base.normalize.join q).normalize := by
  have again : base.normalize.components.foldl Component.reduceStep [] =
      base.components.foldl Component.reduceStep [] := by
    rw [components_normalize]
    exact List.reverse_injective (Component.reduce_reduce base.components)
  rw [normalize_eq_iff_reduce_eq, Component.reduce, Component.reduce,
    foldl_components_join base relative, foldl_components_join base.normalize relative, again]

/-- Normal paths are the canonical ones: they stay as they are when they are normalized again; they
consist of names below the root, or below the `..` of a relative path; a base may be normalized
before a relative path is joined to it; and two paths have the same normal path exactly if both are
absolute or both are relative and their components can be simplified to the same ones. Where
components cannot be simplified further, they are those of the normal path. -/
theorem canonical_normalize :
    (∀ p : Path, p.normalize.normalize = p.normalize) ∧
    (∀ p : Path, p.normalize.isAbsolute = p.isAbsolute ∧ ∃ n names, p.normalize.components =
        (if p.isAbsolute then [.root] else List.replicate n .up) ++ List.map .name names ∧
      ∀ text ∈ names, text ≠ [] ∧ text ≠ ['.'] ∧ text ≠ ['.', '.'] ∧ '/' ∉ text) ∧
    (∀ base q : Path, q.isAbsolute = false →
      (base.join q).normalize = (base.normalize.join q).normalize) ∧
    (∀ p q : Path, p.normalize = q.normalize ↔ p.isAbsolute = q.isAbsolute ∧
      ∃ cs, ReflTransGen Component.Simplifies p.components cs ∧
        ReflTransGen Component.Simplifies q.components cs) ∧
    ∀ (p : Path) (cs : List Component), ReflTransGen Component.Simplifies p.components cs →
      ((∀ ds, ¬ Component.Simplifies cs ds) ↔ cs = p.normalize.components) := by
  refine ⟨normalize_normalize, fun p => ⟨p.isAbsolute_normalize, ?_⟩,
    fun base q relative => normalize_join base relative, fun p q => ⟨fun same => ?_, ?_⟩,
    fun p cs steps => ?_⟩
  · obtain ⟨n, names, components, proper⟩ := p.exists_components_normalize
    refine ⟨n, names, components, fun text mem => ?_⟩
    obtain ⟨visible, not_here⟩ := (proper text mem).chars_ne
    refine ⟨visible, not_here, ?_, (proper text mem).2⟩
    rintro rfl
    cases (proper _ mem).1
  · refine ⟨by rw [← p.isAbsolute_normalize, same, q.isAbsolute_normalize],
      Component.reduce p.components, Component.reflTransGen_reduce p.root_not_mem_tail, ?_⟩
    rw [normalize_eq_iff_reduce_eq.1 same]
    exact Component.reflTransGen_reduce q.root_not_mem_tail
  · rintro ⟨-, cs, of_p, of_q⟩
    rw [normalize_eq_iff_reduce_eq, Component.reduce_eq_of_reflTransGen of_p,
      Component.reduce_eq_of_reflTransGen of_q]
  · rw [components_normalize]
    exact Component.irreducible_iff p.root_not_mem_tail steps

/-- A path that climbs beyond the root. -/
def climbing : Path :=
  ⟨"/a/../.."⟩

/-- Of a path that climbs beyond the root, the root is left. -/
theorem canonical_normalize_climbing :
    (Path.mk "b/./c").isAbsolute = false ∧
    (climbing.join ⟨"b/./c"⟩).normalize = (climbing.normalize.join ⟨"b/./c"⟩).normalize ∧
    ReflTransGen Component.Simplifies climbing.components [.root] ∧
    ((∀ ds, ¬ Component.Simplifies [.root] ds) ↔ [.root] = climbing.normalize.components) := by
  have relative : (Path.mk "b/./c").isAbsolute = false := rfl
  have written : climbing.components = [.root, .name ['a'], .up, .up] := rfl
  have steps : ReflTransGen Component.Simplifies climbing.components [.root] := by
    rw [written]
    exact .head (.cancel [.root] ['a'] [.up]) (.single (.dropUp []))
  obtain ⟨-, -, joined, -, ends⟩ := canonical_normalize
  exact ⟨relative, joined climbing ⟨"b/./c"⟩ relative, steps, ends climbing _ steps⟩

end Path

end TradeScript
