import TradeScript.Path.Normal

/-!
# The characters of a path

Apart from slashes and dots, a normal path has only characters of the path that it comes from
(`Path.mem_normalize`), and the file that a script requires only characters of the script's path and
of the name in the requirement (`Path.mem_resolve`). In particular no newline comes from elsewhere.
-/

namespace TradeScript

namespace Text

theorem mem_of_mem_split {separator c : Char} {cs segment : List Char}
    (h : segment ∈ split separator cs) (mem : c ∈ segment) : c ∈ cs := by
  induction cs generalizing segment with
  | nil =>
    obtain rfl := List.mem_singleton.1 h
    cases mem
  | cons d cs ih =>
    rw [split] at h
    split at h
    · rcases List.mem_cons.1 h with rfl | h
      · cases mem
      · exact List.mem_cons_of_mem d (ih h mem)
    · split at h
      · obtain rfl := List.mem_singleton.1 h
        rw [List.mem_singleton.1 mem]
        exact List.mem_cons_self
      · next first others segments =>
        rcases List.mem_cons.1 h with rfl | h
        · rcases List.mem_cons.1 mem with rfl | mem
          · exact List.mem_cons_self
          · exact List.mem_cons_of_mem d (ih (by rw [segments]; exact List.mem_cons_self) mem)
        · exact List.mem_cons_of_mem d (ih (by rw [segments]; exact List.mem_cons_of_mem _ h) mem)

theorem mem_join {separator : List Char} {pieces : List (List Char)} {c : Char}
    (h : c ∈ join separator pieces) : c ∈ separator ∨ ∃ piece ∈ pieces, c ∈ piece := by
  fun_induction join separator pieces with
  | case1 => cases h
  | case2 piece => exact .inr ⟨piece, List.mem_cons_self, h⟩
  | case3 piece next others ih =>
    rw [List.append_assoc] at h
    rcases List.mem_append.1 h with here | h
    · exact .inr ⟨piece, List.mem_cons_self, here⟩
    · rcases List.mem_append.1 h with between | behind
      · exact .inl between
      · obtain between | ⟨later, mem, here⟩ := ih behind
        · exact .inl between
        · exact .inr ⟨later, List.mem_cons_of_mem piece mem, here⟩

end Text

namespace Path

open Text

namespace Component

theorem mem_ofSegment? {segment : List Char} {component : Component}
    (h : ofSegment? segment = some component) {c : Char} (mem : c ∈ component.chars) :
    c = '.' ∨ c ∈ segment := by
  unfold ofSegment? at h
  split at h
  · cases h
  · split at h
    · cases h
      simp only [chars, List.mem_cons, List.not_mem_nil, or_false, or_self] at mem
      exact .inl mem
    · cases h
      exact .inr mem

theorem mem_componentsOf {cs : List Char} {component : Component}
    (h : component ∈ componentsOf cs) {c : Char} (mem : c ∈ component.chars) : c = '.' ∨ c ∈ cs := by
  unfold componentsOf at h
  split at h
  · cases h
  · next first others segments =>
    have of_segment {segment : List Char} (here : segment ∈ split '/' cs)
        (is_component : ofSegment? segment = some component) : c = '.' ∨ c ∈ cs :=
      (mem_ofSegment? is_component mem).imp_right (mem_of_mem_split here)
    have of_body (here : component ∈ others.filterMap ofSegment?) : c = '.' ∨ c ∈ cs := by
      obtain ⟨segment, mem_segment, is_component⟩ := List.mem_filterMap.1 here
      exact of_segment (by rw [segments]; exact List.mem_cons_of_mem _ mem_segment) is_component
    dsimp only at h
    split at h
    · rcases List.mem_cons.1 h with rfl | h
      · cases mem
      · exact of_body h
    · split at h
      · rcases List.mem_cons.1 h with rfl | h
        · exact .inl (List.mem_singleton.1 mem)
        · exact of_body h
      · rcases List.mem_append.1 h with h | h
        · have is_component := Option.mem_toList.1 h
          exact of_segment (by rw [segments]; exact List.mem_cons_self) is_component
        · exact of_body h

theorem mem_reduceStep {reduced : List Component} {next component : Component}
    (h : component ∈ reduceStep reduced next) : component ∈ reduced ∨ component = next := by
  unfold reduceStep at h
  split at h
  · exact .inr (List.mem_singleton.1 h)
  · exact .inl h
  · split at h
    · exact .inl (List.mem_cons_of_mem _ h)
    · exact .inl h
    · exact (List.mem_cons.1 h).symm
  · exact (List.mem_cons.1 h).symm

theorem mem_reduce {components : List Component} {component : Component}
    (h : component ∈ reduce components) : component ∈ components := by
  have steps (rest reduced : List Component) (mem : component ∈ rest.foldl reduceStep reduced) :
      component ∈ reduced ∨ component ∈ rest := by
    induction rest generalizing reduced with
    | nil => exact .inl mem
    | cons next rest ih =>
      rcases ih _ mem with before | later
      · rcases mem_reduceStep before with before | rfl
        · exact .inl before
        · exact .inr List.mem_cons_self
      · exact .inr (List.mem_cons_of_mem next later)
  rcases steps components [] (List.mem_reverse.1 h) with absent | mem
  · cases absent
  · exact mem

theorem mem_render {components : List Component} {c : Char} (h : c ∈ render components) :
    c = '/' ∨ ∃ component ∈ components, c ∈ component.chars := by
  have joined (others : List Component) (mem : c ∈ Text.join ['/'] (others.map chars)) :
      c = '/' ∨ ∃ component ∈ others, c ∈ component.chars := by
    obtain slash | ⟨piece, mem_piece, here⟩ := Text.mem_join mem
    · exact .inl (List.mem_singleton.1 slash)
    · obtain ⟨component, mem_component, rfl⟩ := List.mem_map.1 mem_piece
      exact .inr ⟨component, mem_component, here⟩
  unfold render at h
  split at h
  · next others =>
    rcases List.mem_cons.1 h with slash | h
    · exact .inl slash
    · obtain slash | ⟨component, mem, here⟩ := joined others h
      · exact .inl slash
      · exact .inr ⟨component, List.mem_cons_of_mem _ mem, here⟩
  · exact joined components h

end Component

/-- A normal path has the characters of the path, slashes and dots. -/
theorem mem_normalize {p : Path} {c : Char} (h : c ∈ p.normalize.chars) :
    c = '/' ∨ c = '.' ∨ c ∈ p.chars := by
  unfold normalize ofChars chars at h
  rw [String.toList_ofList] at h
  obtain slash | ⟨component, mem, here⟩ := Component.mem_render h
  · exact .inl slash
  · exact .inr (Component.mem_componentsOf (Component.mem_reduce mem) here)

theorem mem_join {base target : Path} {c : Char} (h : c ∈ (base.join target).chars) :
    c = '/' ∨ c ∈ base.chars ∨ c ∈ target.chars := by
  unfold join at h
  split at h
  · exact .inr (.inr h)
  · split at h
    · simp only [ofChars, chars, String.toList_ofList, List.mem_append] at h
      exact .inr h
    · simp only [ofChars, chars, String.toList_ofList, List.mem_append, List.mem_cons] at h
      rcases h with here | slash | there
      · exact .inr (.inl here)
      · exact .inl slash
      · exact .inr (.inr there)

theorem mem_parent? {p dir : Path} (is_parent : p.parent? = some dir) {c : Char}
    (h : c ∈ dir.chars) : c = '/' ∨ c ∈ p.chars := by
  unfold parent? at is_parent
  split at is_parent
  · cases is_parent
  · next first others segments =>
    dsimp only at is_parent
    split at is_parent
    · next last front rest =>
      have kept {segment : List Char}
          (mem : segment ∈ first :: (front.dropWhile fun s => (Component.ofSegment? s).isNone).reverse) :
          segment ∈ split '/' p.chars := by
        rw [segments]
        rcases List.mem_cons.1 mem with rfl | mem
        · exact List.mem_cons_self
        · have mem_front := (List.dropWhile_sublist _).subset (List.mem_reverse.1 mem)
          have mem_rest : segment ∈ others.reverse := by
            refine (List.dropWhile_sublist fun s => (Component.ofSegment? s).isNone).subset ?_
            rw [rest]
            exact List.mem_cons_of_mem last mem_front
          exact List.mem_cons_of_mem first (List.mem_reverse.1 mem_rest)
      cases is_parent
      split at h
      · exact .inl (List.mem_singleton.1 h)
      · unfold ofChars chars at h
        rw [String.toList_ofList] at h
        obtain slash | ⟨segment, mem, here⟩ := Text.mem_join h
        · exact .inl (List.mem_singleton.1 slash)
        · exact .inr (mem_of_mem_split (kept mem) here)
    · split at is_parent
      · cases is_parent
      · cases is_parent
        cases h

/-- The file that a script requires has the characters of the script's path and of the name, slashes
and dots. -/
theorem mem_resolve {script : Path} {target : String} {c : Char}
    (h : c ∈ (script.resolve target).chars) :
    c = '/' ∨ c = '.' ∨ c ∈ script.chars ∨ c ∈ target.toList := by
  rcases mem_normalize h with slash | dot | h
  · exact .inl slash
  · exact .inr (.inl dot)
  rcases mem_join h with slash | in_folder | in_target
  · exact .inl slash
  · cases is_parent : script.parent? with
    | none =>
      rw [is_parent] at in_folder
      cases in_folder
    | some dir =>
      rw [is_parent] at in_folder
      rcases mem_parent? is_parent in_folder with slash | here
      · exact .inl slash
      · exact .inr (.inr (.inl here))
  · exact .inr (.inr (.inr in_target))

end Path

end TradeScript
