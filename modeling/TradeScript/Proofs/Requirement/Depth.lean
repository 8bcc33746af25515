import TradeScript.Proofs.Requirement.Survey

/-!
# Depths

A script is settled when those that it requires are deeper than it. Deepening a script leaves settled
scripts settled and settles the script itself, because no circle leads back to it (`Deepened.of_new`).
In the end all scripts are settled, so that each has the length of the longest chain to it
(`Surveyed.isGreatest_depth`).

The recursion ends by itself: within the scripts of a survey it never runs out of room
(`Surveyed.deepens_deepen`).
-/

namespace TradeScript

namespace Requirement

open Relation

/-! ## Looking up depths -/

namespace Depths

/-- A script has been given the given depth or a greater one. -/
def AtLeast (depths : Depths) (p : Path) (depth : Nat) : Prop :=
  ∃ d, depths.of? p = some d ∧ depth ≤ d

/-- The scripts that a script requires are deeper than it. -/
def Settled (depths : Depths) (s : Survey) (p : Path) : Prop :=
  ∀ d, depths.of? p = some d → ∀ q ∈ s.targets p, depths.AtLeast q (d + 1)

/-- A depth that a script has been given is the length of a chain to it. -/
def Sound (depths : Depths) (files : FileSet) (root : Path) (s : Survey) : Prop :=
  ∀ p ∈ s.order, ∀ d, depths.of? p = some d → Chain files d root p

variable {depths : Depths} {p q : Path} {depth : Nat}

theorem any_iff_atLeast : (depths.of? p).any (depth ≤ ·) = true ↔ depths.AtLeast p depth := by
  unfold AtLeast
  cases depths.of? p <;> simp

theorem of?_set_self : (depths.set p depth).of? p = some depth := by
  rw [set, of?, List.find?_cons_of_pos (by simp)]
  rfl

theorem of?_set_of_ne (hp : p.IsNormal) (hq : q.IsNormal) (ne : q ≠ p) :
    (depths.set p depth).of? q = depths.of? q := by
  have other : ¬ (p == q) = true := fun same => ne (hp.eq_of_beq hq same).symm
  rw [set, of?, List.find?_cons_of_neg (by simpa using other)]
  rfl

/-- A script that was not as deep yet makes no script less deep when it gets its depth. -/
theorem AtLeast.set (hp : p.IsNormal) (hq : q.IsNormal) (flat : ¬ depths.AtLeast p depth) {d : Nat}
    (deep : depths.AtLeast q d) : (depths.set p depth).AtLeast q d := by
  by_cases same : q = p
  · subst same
    obtain ⟨d', found, le⟩ := deep
    have lt : d' < depth := Nat.lt_of_not_le fun le' => flat ⟨d', found, le'⟩
    exact ⟨depth, of?_set_self, by omega⟩
  · rwa [AtLeast, of?_set_of_ne hp hq same]

end Depths

/-! ## One deepening after another -/

/-- What it means that some scripts were given a depth and what they require was deepened with them. -/
structure Deepened (files : FileSet) (root : Path) (s : Survey) (scripts : List Path) (depth : Nat)
    (before after : Depths) : Prop where
  grows : ∀ q ∈ s.order, ∀ d, before.AtLeast q d → after.AtLeast q d
  reached : ∀ q ∈ scripts, after.AtLeast q depth
  kept : ∀ q ∈ s.order, (∀ p ∈ scripts, ¬ ReflTransGen (Requires files) p q) →
    after.of? q = before.of? q
  settled : ∀ q ∈ s.order, before.Settled s q → after.Settled s q
  sound : before.Sound files root s → after.Sound files root s

section Deepened

variable {files : FileSet} {root p : Path} {s : Survey} {scripts : List Path} {depth : Nat}
  {before middle after : Depths}

theorem Deepened.nil : Deepened files root s [] depth before before where
  grows _ _ _ h := h
  reached _ mem := by cases mem
  kept _ _ _ := rfl
  settled _ _ h := h
  sound h := h

theorem Deepened.of_known (known : before.AtLeast p depth) :
    Deepened files root s [p] depth before before where
  grows _ _ _ h := h
  reached := by simpa using known
  kept _ _ _ := rfl
  settled _ _ h := h
  sound h := h

theorem Deepened.cons (mem : p ∈ s.order) (first : Deepened files root s [p] depth before middle)
    (others : Deepened files root s scripts depth middle after) :
    Deepened files root s (p :: scripts) depth before after where
  grows q mem d h := others.grows q mem d (first.grows q mem d h)
  reached := List.forall_mem_cons.2
    ⟨others.grows p mem depth (first.reached p List.mem_cons_self), others.reached⟩
  kept q mem apart := by
    rw [List.forall_mem_cons] at apart
    rw [others.kept q mem apart.2, first.kept q mem (by simpa using apart.1)]
  settled q mem h := others.settled q mem (first.settled q mem h)
  sound h := others.sound (first.sound h)

theorem Deepened.foldl {step : Depths → Path → Depths} (mem : ∀ p ∈ scripts, p ∈ s.order)
    (each : ∀ p ∈ scripts, ∀ depths, Deepened files root s [p] depth depths (step depths p))
    (before : Depths) :
    Deepened files root s scripts depth before (scripts.foldl step before) := by
  induction scripts generalizing before with
  | nil => exact .nil
  | cons p scripts ih =>
    rw [List.forall_mem_cons] at mem each
    exact .cons mem.1 (each.1 before) (ih mem.2 each.2 _)

theorem Surveyed.mem_order_of_requires (h : Surveyed files root s) {q : Path} (mem : p ∈ s.order)
    (requires : Requires files p q) : q ∈ s.order :=
  (h.mem_order q).2 (((h.mem_order p).1 mem).tail requires)

/-- A script that gets a new depth is settled when those that it requires have been deepened. -/
theorem Deepened.of_new (hs : Surveyed files root s) (chain : Chain files depth root p)
    (new : ¬ before.AtLeast p depth)
    (h : Deepened files root s (s.targets p) (depth + 1) (before.set p depth) after) :
    Deepened files root s [p] depth before after := by
  have mem : p ∈ s.order := (hs.mem_order p).2 (reflTransGen_iff.2 ⟨depth, chain⟩)
  have targets := hs.targets p mem
  have other {q : Path} (mem_q : q ∈ s.order) (ne : q ≠ p) :
      (before.set p depth).of? q = before.of? q :=
    Depths.of?_set_of_ne (hs.normal p mem) (hs.normal q mem_q) ne
  have grows (q : Path) (mem_q : q ∈ s.order) (d : Nat) (deep : before.AtLeast q d) :
      (before.set p depth).AtLeast q d :=
    deep.set (hs.normal p mem) (hs.normal q mem_q) new
  -- no circle leads back to the script, so that its depth stays while it is being settled
  have still : after.of? p = some depth := by
    rw [h.kept p mem fun q first back => ?_, Depths.of?_set_self]
    rw [targets] at first
    exact hs.acyclic p mem (.head' first back)
  refine ⟨fun q mem_q d deep => h.grows q mem_q d (grows q mem_q d deep), ?_, ?_, ?_, ?_⟩
  · simpa using ⟨depth, still, Nat.le_refl depth⟩
  · intro q mem_q apart
    have apart_p := apart p List.mem_cons_self
    have ne : q ≠ p := by
      rintro rfl
      exact apart_p .refl
    rw [h.kept q mem_q fun r first back => ?_, other mem_q ne]
    rw [targets] at first
    exact apart_p (.head first back)
  · intro q mem_q settled
    by_cases same : q = p
    · subst same
      intro d found r first
      cases still.symm.trans found
      exact h.reached r first
    · refine h.settled q mem_q fun d found r first => ?_
      rw [other mem_q same] at found
      rw [hs.targets q mem_q] at first
      exact grows r (hs.mem_order_of_requires mem_q first) _
        (settled d found r (by rwa [hs.targets q mem_q]))
  · refine fun sound => h.sound fun q mem_q d found => ?_
    by_cases same : q = p
    · subst same
      cases Depths.of?_set_self.symm.trans found
      exact chain
    · rw [other mem_q same] at found
      exact sound q mem_q d found

/-- Deepening a script at the end of a chain deepens what it requires. -/
theorem Surveyed.deepened_deepen (hs : Surveyed files root s) {room : Nat}
    (enough : s.order.length ≤ room + depth) (chain : Chain files depth root p) (before : Depths) :
    Deepened files root s [p] depth before (deepen s room depth before p) := by
  induction room generalizing depth p before with
  | zero => exact absurd (hs.short depth p chain) (by omega)
  | succ room ih =>
    rw [deepen]
    split
    · next known => exact .of_known (Depths.any_iff_atLeast.1 known)
    · next new =>
      have mem : p ∈ s.order := (hs.mem_order p).2 (reflTransGen_iff.2 ⟨depth, chain⟩)
      refine .of_new hs chain (fun deep => new (Depths.any_iff_atLeast.2 deep)) ?_
      rw [hs.targets p mem]
      exact .foldl (fun q first => hs.mem_order_of_requires mem first)
        (fun q first => ih (by omega) (chain.concat first)) _

end Deepened

/-! ## The recursion without a bound -/

mutual

/-- Deepening a script ends with the given depths, however much room that takes. -/
inductive Deepens (s : Survey) : (depth : Nat) → Depths → Path → Depths → Prop
  | known {depth : Nat} {depths : Depths} {p : Path} (deep : depths.AtLeast p depth) :
      Deepens s depth depths p depths
  | new {depth : Nat} {before after : Depths} {p : Path} (flat : ¬ before.AtLeast p depth)
      (all : DeepensAll s (depth + 1) (before.set p depth) (s.targets p) after) :
      Deepens s depth before p after

/-- Deepening some scripts in order ends with the given depths. -/
inductive DeepensAll (s : Survey) : (depth : Nat) → Depths → List Path → Depths → Prop
  | nil {depth : Nat} (depths : Depths) : DeepensAll s depth depths [] depths
  | cons {depth : Nat} {before middle after : Depths} {p : Path} {others : List Path}
      (first : Deepens s depth before p middle) (rest : DeepensAll s depth middle others after) :
      DeepensAll s depth before (p :: others) after

end

theorem deepensAll_foldl {s : Survey} {depth : Nat} {step : Depths → Path → Depths}
    {scripts : List Path} (each : ∀ p ∈ scripts, ∀ depths, Deepens s depth depths p (step depths p))
    (before : Depths) : DeepensAll s depth before scripts (scripts.foldl step before) := by
  induction scripts generalizing before with
  | nil => exact .nil before
  | cons p scripts ih =>
    rw [List.forall_mem_cons] at each
    exact .cons (each.1 before) (ih each.2 _)

/-- In a survey, deepening ends without running out of room. -/
theorem Surveyed.deepens_deepen {files : FileSet} {root p : Path} {s : Survey}
    (hs : Surveyed files root s) {room depth : Nat} (enough : s.order.length ≤ room + depth)
    (chain : Chain files depth root p) (before : Depths) :
    Deepens s depth before p (deepen s room depth before p) := by
  induction room generalizing depth p before with
  | zero => exact absurd (hs.short depth p chain) (by omega)
  | succ room ih =>
    rw [deepen]
    split
    · next known => exact .known (Depths.any_iff_atLeast.1 known)
    · next new =>
      have mem : p ∈ s.order := (hs.mem_order p).2 (reflTransGen_iff.2 ⟨depth, chain⟩)
      refine .new (fun deep => new (Depths.any_iff_atLeast.2 deep)) (deepensAll_foldl ?_ _)
      intro q first
      rw [hs.targets p mem] at first
      exact ih (by omega) (chain.concat first)

/-! ## The depth of a script -/

theorem Depths.atLeast_of_chain {files : FileSet} {root p q : Path} {s : Survey} {depths : Depths}
    (hs : Surveyed files root s) (settled : ∀ q ∈ s.order, depths.Settled s q) {n depth : Nat}
    (chain : Chain files n p q) (mem : p ∈ s.order) (deep : depths.AtLeast p depth) :
    depths.AtLeast q (depth + n) := by
  induction chain generalizing depth with
  | nil => exact deep
  | @cons n p r q first _ ih =>
    obtain ⟨d, found, le⟩ := deep
    obtain ⟨d', found', le'⟩ := settled p mem d found r (by rwa [hs.targets p mem])
    have further := ih (hs.mem_order_of_requires mem first) ⟨d', found', le'⟩
    obtain ⟨d'', found'', le''⟩ := further
    exact ⟨d'', found'', by omega⟩

/-- The depth of a script is the length of the longest chain that leads to it. -/
theorem Surveyed.isGreatest_depth {files : FileSet} {root p : Path} {s : Survey}
    (hs : Surveyed files root s) (mem : p ∈ s.order) :
    IsGreatest {n | Chain files n root p}
      (((deepen s s.order.length 0 [] root).of? p).getD 0) := by
  have deepened : Deepened files root s [root] 0 [] (deepen s s.order.length 0 [] root) :=
    hs.deepened_deepen (Nat.le_refl _) (.nil root) []
  have settled (q : Path) (mem_q : q ∈ s.order) :
      (deepen s s.order.length 0 [] root).Settled s q :=
    deepened.settled q mem_q fun d found => by cases found
  have sound := deepened.sound fun q _ d found => by cases found
  have root_mem : root ∈ s.order := (hs.mem_order root).2 .refl
  have deep {n : Nat} (chain : Chain files n root p) :
      (deepen s s.order.length 0 [] root).AtLeast p (0 + n) :=
    Depths.atLeast_of_chain hs settled chain root_mem (deepened.reached root List.mem_cons_self)
  obtain ⟨n, chain⟩ := reflTransGen_iff.1 ((hs.mem_order p).1 mem)
  obtain ⟨d, found, -⟩ := deep chain
  rw [found, Option.getD_some]
  refine ⟨sound p mem d found, fun n chain => ?_⟩
  obtain ⟨d', found', le⟩ := deep chain
  cases found.symm.trans found'
  omega

end Requirement

end TradeScript
