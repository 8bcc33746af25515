import TradeScript.Proofs.Plugin.Wiring

/-!
# The variables of a plugin

Each instance of a plugin has two variables in the generated code: its indicator, with a suffix to
its name, and its data. Composition compares the names of the instances only, so the variables of two
instances differ unless one instance is named like the indicator of the other
(`Plugin.nodup_variableNames_iff_of_compose`).
-/

namespace TradeScript

/-! ## Names with a suffix -/

namespace Instance

variable {instances : List Instance}

/-- The variables that the two lines of an instance introduce. -/
def variableNames (i : Instance) : List String :=
  [i.indicatorName, i.name]

theorem indicatorName_inj {i j : Instance} : i.indicatorName = j.indicatorName ↔ i.name = j.name :=
  String.append_left_inj suffix

theorem name_ne_indicatorName (i : Instance) : i.name ≠ i.indicatorName := by
  intro same
  have length := congrArg String.length same
  rw [indicatorName, String.length_append, suffix] at length
  simp at length

theorem nodup_variableNames (i : Instance) : i.variableNames.Nodup := by
  simpa [variableNames] using i.name_ne_indicatorName.symm

/-- The variables of two instances differ if their names do and neither is named like the indicator of
the other. -/
theorem disjoint_variableNames_iff {i j : Instance} : List.Disjoint i.variableNames j.variableNames ↔
    i.name ≠ j.name ∧ j.name ≠ i.indicatorName ∧ i.name ≠ j.indicatorName := by
  simp only [variableNames, List.disjoint_cons_left, List.disjoint_nil_left, and_true, List.mem_cons,
    List.not_mem_nil, or_false, not_or, indicatorName_inj]
  constructor
  · rintro ⟨⟨-, forth⟩, back, distinct⟩
    exact ⟨distinct, Ne.symm forth, back⟩
  · rintro ⟨distinct, forth, back⟩
    exact ⟨⟨distinct, Ne.symm forth⟩, back, distinct⟩

/-- The variables of instances whose names differ are distinct unless one instance is named like the
indicator of another. -/
theorem nodup_flatMap_variableNames_iff (distinct : (instances.map Instance.name).Nodup) :
    (instances.flatMap variableNames).Nodup ↔
      ∀ i ∈ instances, ∀ j ∈ instances, j.name ≠ i.indicatorName := by
  rw [List.nodup_flatMap]
  constructor
  · rintro ⟨-, disjoint⟩ i mem_i j mem_j
    by_cases same : i = j
    · exact same ▸ i.name_ne_indicatorName
    -- the pairs are taken in the order of the list, on which being disjoint does not depend
    · have symmetric : Std.Symm fun i j : Instance => List.Disjoint i.variableNames j.variableNames :=
        ⟨fun _ _ => List.Disjoint.symm⟩
      exact (disjoint_variableNames_iff.1 (disjoint.forall mem_i mem_j same)).2.1
  · intro apart
    refine ⟨fun i _ => i.nodup_variableNames, ?_⟩
    refine (List.pairwise_map.1 distinct).imp_of_mem fun {i j} mem_i mem_j different => ?_
    exact disjoint_variableNames_iff.2 ⟨different, apart i mem_i j mem_j, apart j mem_j i mem_i⟩

end Instance

/-! ## The variables of a composed plugin -/

namespace Plugin

variable {g : Grammar} {templates : Templates} {files : FileSet} {p : Path} {plugin : Plugin}

theorem nodup_names_of_compose (h : (compose g templates files p).start.1 = .ok plugin) :
    (plugin.instances.map Instance.name).Nodup := by
  obtain ⟨_, indicators, _, _, -, -, ends⟩ := ends_compose_iff.1 (Reading.start_eq_ok_iff.1 h)
  obtain ⟨e, label, script, instances, _, -, parts, -, rfl⟩ := ends_composeAlgorithm_iff.1 ends
  exact (collect_eq_ok (by simp) parts.collected).2

/-- The variables of a composed plugin are distinct exactly if no instance is named like the
indicator of an instance. -/
theorem nodup_variableNames_iff_of_compose
    (h : (compose g templates files p).start.1 = .ok plugin) :
    (plugin.instances.flatMap Instance.variableNames).Nodup ↔
      ∀ i ∈ plugin.instances, ∀ j ∈ plugin.instances, j.name ≠ i.indicatorName :=
  Instance.nodup_flatMap_variableNames_iff (nodup_names_of_compose h)

theorem nodup_variableNames_iff_twins :
    (compose Script.grammar .default twins ⟨"a.dts"⟩).start.1 = .ok twinsPlugin ∧
      ((twinsPlugin.instances.flatMap Instance.variableNames).Nodup ↔
        ∀ i ∈ twinsInstances, ∀ j ∈ twinsInstances, j.name ≠ i.indicatorName) :=
  ⟨compose_twins, nodup_variableNames_iff_of_compose compose_twins⟩

/-- An instance may be named like the indicator of another. -/
theorem not_forall_nodup_variableNames : ¬ ∀ (files : FileSet) (p : Path) (plugin : Plugin),
    (compose Script.grammar .default files p).start.1 = .ok plugin →
      (plugin.instances.flatMap Instance.variableNames).Nodup := by
  intro all
  have twice : ¬ (twinsInstances.flatMap Instance.variableNames).Nodup := by decide
  exact twice (all twins ⟨"a.dts"⟩ twinsPlugin compose_twins)

end Plugin

end TradeScript
