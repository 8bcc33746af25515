import TradeScript.Tree

/-!
# The order of the nodes

A node of a tree has a place: the numbers of the children to go down through from the root. A place
comes before those below it, and those below a child before those below a later child, so the
lexicographic order of the places is the order of the script, an outer node before the inner ones.

The list of nodes, which is taken off a stack of pending trees, is in that order and has the node of
each place once (`Tree.lists_descendants`). A search through it keeps the order
(`Tree.Lists.filter`), and of two nodes that it lists the later one stands within the earlier one or
has its tokens behind (`Tree.inOrder_descendants`).

Main statement: `Tree.descendants_preorder`.
-/

namespace TradeScript.Tree

/-! ## Induction -/

theorem size_le_sizeAll {t : Tree} {ts : List Tree} (mem : t ∈ ts) : t.size ≤ sizeAll ts := by
  obtain ⟨before, behind, rfl⟩ := List.append_of_mem mem
  rw [sizeAll_append, sizeAll]
  omega

/-- What holds for a tree as soon as it holds for the children holds for every tree. -/
@[elab_as_elim]
theorem induction_children {motive : Tree → Prop}
    (step : ∀ t, (∀ c ∈ t.children, motive c) → motive t) (t : Tree) : motive t :=
  step t fun c mem =>
    have : c.size < t.size := by
      have := size_le_sizeAll mem
      rw [size_eq t]
      omega
    induction_children step c
  termination_by t.size

/-! ## Places -/

/-- The node at a place, if there is one. -/
def at? : Tree → List Nat → Option Tree
  | t, [] => some t
  | t, i :: p => t.children[i]?.bind fun c => c.at? p

mutual

/-- The nodes of a tree, each behind its place. -/
def placed : Tree → List (List Nat × Tree)
  | leaf token => [([], leaf token)]
  | node head choice start children =>
    ([], node head choice start children) :: placedFrom 0 children

/-- The nodes of the children from a number on, each behind its place. -/
def placedFrom (i : Nat) : List Tree → List (List Nat × Tree)
  | [] => []
  | t :: others => t.placed.map (fun x => (i :: x.1, x.2)) ++ placedFrom (i + 1) others

end

theorem placed_eq (t : Tree) : t.placed = ([], t) :: placedFrom 0 t.children := by
  cases t <;> simp [placed, placedFrom, children]

theorem mem_placedFrom {i : Nat} {ts : List Tree} {x : List Nat × Tree} :
    x ∈ placedFrom i ts ↔
      ∃ j c p, ts[j]? = some c ∧ x.1 = (i + j) :: p ∧ (p, x.2) ∈ c.placed := by
  induction ts generalizing i with
  | nil => simp [placedFrom]
  | cons t others ih =>
    rw [placedFrom, List.mem_append, List.mem_map, ih]
    constructor
    · rintro (⟨y, mem, rfl⟩ | ⟨j, c, p, child, place, mem⟩)
      · exact ⟨0, t, y.1, rfl, rfl, mem⟩
      · exact ⟨j + 1, c, p, child, by rw [place]; congr 1; omega, mem⟩
    · rintro ⟨_ | j, c, p, child, place, mem⟩
      · obtain rfl : t = c := Option.some.inj child
        exact .inl ⟨(p, x.2), mem, Prod.ext place.symm rfl⟩
      · exact .inr ⟨j, c, p, child, by rw [place]; congr 1; omega, mem⟩

/-- The list holds what stands at the places, and nothing else. -/
theorem mem_placed {t u : Tree} {p : List Nat} : (p, u) ∈ t.placed ↔ t.at? p = some u := by
  induction t using induction_children generalizing p with
  | step t ih =>
    rw [placed_eq, List.mem_cons, mem_placedFrom]
    cases p with
    | nil => simp [at?, eq_comm]
    | cons i p =>
      simp only [at?, Option.bind_eq_some_iff, Prod.mk.injEq, reduceCtorEq, false_and, false_or,
        Nat.zero_add, List.cons.injEq]
      constructor
      · rintro ⟨j, c, q, child, ⟨rfl, rfl⟩, mem⟩
        exact ⟨c, child, (ih c (List.mem_of_getElem? child)).1 mem⟩
      · rintro ⟨c, child, found⟩
        exact ⟨i, c, p, child, ⟨rfl, rfl⟩, (ih c (List.mem_of_getElem? child)).2 found⟩

theorem pairwise_placedFrom {i : Nat} {ts : List Tree}
    (each : ∀ c ∈ ts, c.placed.Pairwise fun x y => x.1 < y.1) :
    (placedFrom i ts).Pairwise fun x y => x.1 < y.1 := by
  induction ts generalizing i with
  | nil => exact .nil
  | cons t others ih =>
    rw [List.forall_mem_cons] at each
    rw [placedFrom, List.pairwise_append, List.pairwise_map]
    refine ⟨each.1.imp List.Lex.cons, ih each.2, fun x mem y mem' => ?_⟩
    -- the first is below the child `i`, the second below a later one
    obtain ⟨x, -, rfl⟩ := List.mem_map.1 mem
    obtain ⟨j, c, p, -, place, -⟩ := mem_placedFrom.1 mem'
    rw [place]
    exact .rel (by omega)

/-- The places come in their lexicographic order. -/
theorem pairwise_placed (t : Tree) : t.placed.Pairwise fun x y => x.1 < y.1 := by
  induction t using induction_children with
  | step t ih =>
    rw [placed_eq, List.pairwise_cons]
    refine ⟨fun y mem => ?_, pairwise_placedFrom ih⟩
    obtain ⟨j, c, p, -, place, -⟩ := mem_placedFrom.1 mem
    rw [place]
    exact .nil

theorem map_snd_placedFrom {i : Nat} {ts : List Tree}
    (each : ∀ c ∈ ts, c.placed.map Prod.snd = c.descendants) :
    (placedFrom i ts).map Prod.snd = ts.flatMap descendants := by
  induction ts generalizing i with
  | nil => rfl
  | cons t others ih =>
    rw [List.forall_mem_cons] at each
    rw [placedFrom, List.map_append, List.map_map, List.flatMap_cons, ih each.2, ← each.1]
    rfl

/-- Without the places, the list is that of the nodes. -/
theorem map_snd_placed (t : Tree) : t.placed.map Prod.snd = t.descendants := by
  induction t using induction_children with
  | step t ih => rw [placed_eq, List.map_cons, map_snd_placedFrom ih, descendants_eq]

/-! ## Lists of nodes -/

/-- The list holds the wanted nodes of a tree, the one at each place once, in the order of the
places. -/
def Lists (t : Tree) (wanted : Tree → Bool) (nodes : List Tree) : Prop :=
  ∃ placed : List (List Nat × Tree),
    placed.map Prod.snd = nodes ∧ placed.Pairwise (fun x y => x.1 < y.1) ∧
      ∀ p u, (p, u) ∈ placed ↔ t.at? p = some u ∧ wanted u = true

theorem lists_descendants (t : Tree) : t.Lists (fun _ => true) t.descendants :=
  ⟨t.placed, map_snd_placed t, pairwise_placed t, fun p u => by rw [mem_placed, and_iff_left rfl]⟩

/-- A search through the nodes keeps their order. -/
theorem Lists.filter {t : Tree} {wanted : Tree → Bool} {nodes : List Tree}
    (lists : t.Lists wanted nodes) (also : Tree → Bool) :
    t.Lists (fun u => wanted u && also u) (nodes.filter also) := by
  obtain ⟨placed, rfl, ordered, exact⟩ := lists
  refine ⟨placed.filter (also ∘ Prod.snd), List.filter_map.symm, ordered.filter _, fun p u => ?_⟩
  rw [List.mem_filter, exact, and_assoc, Bool.and_eq_true]
  rfl

/-! ## Order in the script -/

/-- The node `v` stands within `u`, or its tokens come behind those of `u`. -/
def InOrder (t u v : Tree) : Prop :=
  v ∈ u.children.flatMap descendants ∨
    ∃ front behind, front ++ behind = t.tokens ∧ u.tokens <:+: front ∧ v.tokens <:+: behind

theorem tokens_isInfix_flatMap {c : Tree} {ts : List Tree} (mem : c ∈ ts) :
    c.tokens <:+: ts.flatMap tokens := by
  obtain ⟨before, behind, rfl⟩ := List.append_of_mem mem
  rw [List.flatMap_append, List.flatMap_cons, ← List.append_assoc]
  exact ⟨_, _, rfl⟩

theorem children_tokens_isSuffix (t : Tree) : t.children.flatMap tokens <:+ t.tokens :=
  ⟨_, (tokens_eq t).symm⟩

/-- The tokens of a node stand together in those of the tree. -/
theorem tokens_isInfix {t u : Tree} (mem : u ∈ t.descendants) : u.tokens <:+: t.tokens := by
  induction t using induction_children with
  | step t ih =>
    rw [descendants_eq, List.mem_cons, List.mem_flatMap] at mem
    rcases mem with rfl | ⟨c, child, mem⟩
    · exact List.infix_rfl
    · exact ((ih c child mem).trans (tokens_isInfix_flatMap child)).trans
        (children_tokens_isSuffix t).isInfix

theorem InOrder.of_isInfix {t c u v : Tree} (infixes : c.tokens <:+: t.tokens)
    (h : c.InOrder u v) : t.InOrder u v := by
  rcases h with within | ⟨front, behind, tokens, first, second⟩
  · exact .inl within
  obtain ⟨before, after, whole⟩ := infixes
  refine .inr ⟨before ++ front, behind ++ after, ?_, first.trans ?_, second.trans ?_⟩
  · rw [← whole, ← tokens]
    simp only [List.append_assoc]
  · exact (List.suffix_append before front).isInfix
  · exact (List.prefix_append behind after).isInfix

theorem inOrder_of_children {t c d u v : Tree} (children : [c, d].Sublist t.children)
    (mem_u : u ∈ c.descendants) (mem_v : v ∈ d.descendants) : t.InOrder u v := by
  obtain ⟨left, right, split, mem_c, mem_d⟩ := List.cons_sublist_iff.1 children
  refine .inr ⟨t.token?.toList ++ left.flatMap tokens, right.flatMap tokens, ?_, ?_, ?_⟩
  · rw [tokens_eq t, split, List.flatMap_append, List.append_assoc]
  · exact ((tokens_isInfix mem_u).trans (tokens_isInfix_flatMap mem_c)).trans
      (List.suffix_append _ _).isInfix
  · exact (tokens_isInfix mem_v).trans (tokens_isInfix_flatMap (List.singleton_sublist.1 mem_d))

/-- Of two nodes in the list, the later one stands within the earlier one or has its tokens
behind. -/
theorem inOrder_descendants (t : Tree) : t.descendants.Pairwise t.InOrder := by
  induction t using induction_children with
  | step t ih =>
    rw [descendants_eq, List.pairwise_cons, List.pairwise_flatMap]
    refine ⟨fun v within => .inl within, fun c child => ?_, ?_⟩
    · exact (ih c child).imp
        (.of_isInfix ((tokens_isInfix_flatMap child).trans (children_tokens_isSuffix t).isInfix))
    · refine List.pairwise_iff_forall_sublist.2 fun children u mem_u v mem_v => ?_
      exact inOrder_of_children children mem_u mem_v

/-- The nodes of a tree are the root and then the nodes of its children from left to right, the node
at each place once. So its tokens are those of its children one after the other, and the phrases of
a kind come in the order of the script, an outer one before those within it. -/
theorem descendants_preorder (t : Tree) :
    t.descendants = t :: t.children.flatMap descendants ∧
    t.Lists (fun _ => true) t.descendants ∧
    t.tokens = t.token?.toList ++ t.children.flatMap tokens ∧
    ∀ n, t.Lists (isPhrase n) (t.phrases n) ∧ (t.phrases n).Pairwise t.InOrder :=
  ⟨descendants_eq t, lists_descendants t, tokens_eq t, fun n =>
    ⟨(lists_descendants t).filter (isPhrase n), (inOrder_descendants t).filter _⟩⟩

end TradeScript.Tree
