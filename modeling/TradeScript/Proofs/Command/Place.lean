import TradeScript.Command.Place
import TradeScript.Proofs.Path.Normal

/-!
# Where paths lead

Following a path from folder to folder ends where its normal path says (`foldl_follow_components`), so
a path can only lead to the file under its normal path (`FileSet.textAt?_of_place`). Where it leads
depends on nothing but the folders on its way and that file (`FileSet.fileAt?_congr`). Files that are
put into a folder that stands, or removed from it, leave the folders as they are
(`FileSet.Stands.hasFolder_put`, `FileSet.Stands.hasFolder_erase`).
-/

namespace TradeScript

namespace FileSet

open TradeScript.Path TradeScript.Path.Component

/-! ## Walks -/

/-- Where one more component of a path leads, from where the ones before it led. -/
def follow (reached : List Component) : Component → List Component
  | .here => reached
  | .up => folderAbove reached
  | c => reached ++ [c]

variable {s s' : FileSet} {mustBeFolder : Bool} {reached components : List Component} {text : String}

theorem placeFrom_root (others : List Component) :
    placeFrom s (.plain mustBeFolder) reached (.root :: others) =
        placeFrom s (.plain mustBeFolder) (reached ++ [.root]) others := by
  have short : Component.root.isOverlong = false := by decide
  rw [placeFrom] <;> simp [short]

theorem placeFrom_name_eq_folder_iff {name : List Char} {others : List Component} :
    placeFrom s (.plain mustBeFolder) reached (.name name :: others) = .folder ↔
      (Component.name name).isOverlong = false ∧ s.hasFolder (reached ++ [.name name]) = true ∧
        placeFrom s (.plain mustBeFolder) (reached ++ [.name name]) others = .folder := by
  rw [placeFrom]
  · cases (Component.name name).isOverlong <;> cases s.hasFolder (reached ++ [.name name]) <;>
      cases s.textAt? (reached ++ [.name name]) <;> cases others <;> cases mustBeFolder <;>
      simp [Walk.plain]
  · exact Component.noConfusion
  · exact Component.noConfusion

theorem placeFrom_name_eq_file_iff {name : List Char} {others : List Component} :
    placeFrom s (.plain mustBeFolder) reached (.name name :: others) = .file text ↔
      (Component.name name).isOverlong = false ∧
        (s.hasFolder (reached ++ [.name name]) = true ∧
          placeFrom s (.plain mustBeFolder) (reached ++ [.name name]) others = .file text ∨
        s.hasFolder (reached ++ [.name name]) = false ∧ others = [] ∧ mustBeFolder = false ∧
          s.textAt? (reached ++ [.name name]) = some text) := by
  rw [placeFrom]
  · cases (Component.name name).isOverlong <;> cases s.hasFolder (reached ++ [.name name]) <;>
      cases s.textAt? (reached ++ [.name name]) <;> cases others <;> cases mustBeFolder <;>
      simp [Walk.plain]
  · exact Component.noConfusion
  · exact Component.noConfusion

/-- Where there are more folders, a path that led to a folder still does. -/
theorem placeFrom_folder_mono
    (more : ∀ reached, s.hasFolder reached = true → s'.hasFolder reached = true)
    (h : placeFrom s (.plain mustBeFolder) reached components = .folder) :
    placeFrom s' (.plain mustBeFolder) reached components = .folder := by
  induction components generalizing reached with
  | nil => rfl
  | cons c others ih =>
    cases c with
    | here => exact ih h
    | up => exact ih h
    | root =>
      rw [placeFrom_root] at h ⊢
      exact ih h
    | name name =>
      rw [placeFrom_name_eq_folder_iff] at h ⊢
      exact ⟨h.1, more _ h.2.1, ih h.2.2⟩

/-- The file that a path leads to is where the path ends. -/
theorem textAt?_of_placeFrom
    (h : placeFrom s (.plain mustBeFolder) reached components = .file text) :
    s.textAt? (components.foldl follow reached) = some text := by
  induction components generalizing reached with
  | nil => cases h
  | cons c others ih =>
    cases c with
    | here => exact ih h
    | up => exact ih h
    | root =>
      rw [placeFrom_root] at h
      exact ih h
    | name name =>
      rw [placeFrom_name_eq_file_iff] at h
      obtain ⟨-, ⟨-, h⟩ | ⟨-, rfl, -, found⟩⟩ := h
      · exact ih h
      · exact found

/-- Where there are the same folders, a path leads to the file at its end still. -/
theorem placeFrom_file_congr (folders : ∀ reached, s.hasFolder reached = s'.hasFolder reached)
    (same : s'.textAt? (components.foldl follow reached) = some text)
    (h : placeFrom s (.plain mustBeFolder) reached components = .file text) :
    placeFrom s' (.plain mustBeFolder) reached components = .file text := by
  induction components generalizing reached with
  | nil => cases h
  | cons c others ih =>
    cases c with
    | here => exact ih same h
    | up => exact ih same h
    | root =>
      rw [placeFrom_root] at h ⊢
      exact ih same h
    | name name =>
      rw [placeFrom_name_eq_file_iff, folders] at h
      rw [placeFrom_name_eq_file_iff]
      obtain ⟨short, ⟨there, h⟩ | ⟨absent, rfl, may_be_file, -⟩⟩ := h
      · exact ⟨short, .inl ⟨there, ih same h⟩⟩
      · exact ⟨short, .inr ⟨absent, rfl, may_be_file, same⟩⟩

/-! ## The end of a walk -/

theorem follow_reverse {reduced : List Component} {c : Component} (no_dots : .here ∉ reduced)
    (not_root : c ≠ .root) : follow reduced.reverse c = (reduceStep reduced c).reverse := by
  cases c with
  | root => exact absurd rfl not_root
  | here => rfl
  | name text => simp [follow, reduceStep]
  | up =>
    rcases reduced with _ | ⟨top, before⟩
    · rfl
    · cases top with
      | here => exact absurd List.mem_cons_self no_dots
      | _ => simp [follow, reduceStep, folderAbove]

theorem here_not_mem_reduceStep {reduced : List Component} (no_dots : .here ∉ reduced)
    (c : Component) : .here ∉ reduceStep reduced c := by
  cases c with
  | root => simp [reduceStep]
  | here => exact no_dots
  | name text => simpa [reduceStep] using no_dots
  | up =>
    rcases reduced with _ | ⟨top, before⟩
    · simp [reduceStep]
    · cases top with
      | name text => exact fun mem => no_dots (List.mem_cons_of_mem _ mem)
      | root => exact no_dots
      | here => exact absurd List.mem_cons_self no_dots
      | up => simpa [reduceStep] using no_dots

theorem foldl_follow {reduced components : List Component} (no_dots : .here ∉ reduced)
    (no_root : .root ∉ components) :
    components.foldl follow reduced.reverse = (components.foldl reduceStep reduced).reverse := by
  induction components generalizing reduced with
  | nil => rfl
  | cons c components ih =>
    rw [List.mem_cons, not_or] at no_root
    rw [List.foldl_cons, List.foldl_cons, follow_reverse no_dots (Ne.symm no_root.1),
      ih (here_not_mem_reduceStep no_dots c) no_root.2]

theorem ofSegment?_ne_root (segment : List Char) : ofSegment? segment ≠ some .root := by
  intro read
  unfold ofSegment? at read
  split at read
  · cases read
  · split at read <;> cases read

/-- Only at its front can a path have a root. -/
theorem root_not_mem_components (p : Path) :
    .root ∉ p.components ∨ ∃ body, p.components = .root :: body ∧ .root ∉ body := by
  have not_mem (segments : List (List Char)) : .root ∉ segments.filterMap ofSegment? := by
    intro mem
    obtain ⟨segment, -, read⟩ := List.mem_filterMap.1 mem
    exact ofSegment?_ne_root segment read
  unfold components componentsOf
  split
  · exact .inl List.not_mem_nil
  · next first others segments =>
    dsimp only
    split
    · exact .inr ⟨_, rfl, not_mem others⟩
    · split
      · refine .inl ?_
        rw [List.mem_cons, not_or]
        exact ⟨Component.noConfusion, not_mem others⟩
      · refine .inl ?_
        rw [List.mem_append, not_or, Option.mem_toList]
        exact ⟨ofSegment?_ne_root first, not_mem others⟩

/-- A walk along a path ends where its normal path says. -/
theorem foldl_follow_components (p : Path) :
    p.components.foldl follow [] = p.normalize.components := by
  rw [components_normalize, reduce]
  obtain no_root | ⟨body, whole, no_root⟩ := root_not_mem_components p
  · exact foldl_follow List.not_mem_nil no_root
  · rw [whole]
    have at_root : .here ∉ [Component.root] := by simp
    exact foldl_follow at_root no_root

/-! ## Places -/

variable {p : Path}

theorem place_folder_mono
    (more : ∀ reached, s.hasFolder reached = true → s'.hasFolder reached = true)
    (h : s.place p = .folder) : s'.place p = .folder := by
  unfold place at h ⊢
  split at h
  · cases h
  · next visible =>
    rw [if_neg visible]
    split at h
    · cases h
    · next short =>
      rw [if_neg short]
      exact placeFrom_folder_mono more h

theorem textAt?_of_place (h : s.place p = .file text) :
    s.textAt? p.normalize.components = some text := by
  unfold place at h
  split at h
  · cases h
  · split at h
    · cases h
    · rw [← foldl_follow_components]
      exact textAt?_of_placeFrom h

theorem place_file_congr (folders : ∀ reached, s.hasFolder reached = s'.hasFolder reached)
    (same : s'.textAt? p.normalize.components = some text) (h : s.place p = .file text) :
    s'.place p = .file text := by
  rw [← foldl_follow_components] at same
  unfold place at h ⊢
  split at h
  · cases h
  · next visible =>
    rw [if_neg visible]
    split at h
    · cases h
    · next short =>
      rw [if_neg short]
      exact placeFrom_file_congr folders same h

/-- The text of the file that a path leads to. -/
def fileAt? (s : FileSet) (p : Path) : Option String :=
  match s.place p with
  | .file text => some text
  | _ => none

theorem fileAt?_eq_some_iff : s.fileAt? p = some text ↔ s.place p = .file text := by
  unfold fileAt?
  split
  · next found => simp [found]
  · next no_file => simpa using no_file text

/-- Nothing exists at a path. -/
structure Vacant (s : FileSet) (p : Path) : Prop where
  no_file : s.fileAt? p = none
  no_folder : s.place p ≠ .folder

theorem fileAt?_congr (folders : ∀ reached, s.hasFolder reached = s'.hasFolder reached)
    (same : s.textAt? p.normalize.components = s'.textAt? p.normalize.components) :
    s.fileAt? p = s'.fileAt? p := by
  refine Option.ext fun text => ?_
  rw [fileAt?_eq_some_iff, fileAt?_eq_some_iff]
  constructor
  · exact fun h => place_file_congr folders (same ▸ textAt?_of_place h) h
  · exact fun h => place_file_congr (fun reached => (folders reached).symm)
      (same.symm ▸ textAt?_of_place h) h

/-! ## Files that are put and removed -/

theorem hasFolder_iff : s.hasFolder reached = true ↔ reached = [] ∨
    (∃ f ∈ s.files, reached <+: f.1.components ∧ reached ≠ f.1.components) ∨
      ∃ folder ∈ s.folders, reached <+: folder.components := by
  simp [hasFolder, or_assoc]

theorem text?_eq_textAt? (s : FileSet) (p : Path) : s.text? p = s.textAt? p.components :=
  rfl

theorem beq_eq_false_iff {p q : Path} : (p == q) = false ↔ p.components ≠ q.components := by
  rw [Bool.eq_false_iff, ne_eq, beq_iff]

theorem textAt?_erase (s : FileSet) (p : Path) (reached : List Component) :
    (s.erase p).textAt? reached = if reached = p.components then none else s.textAt? reached := by
  unfold textAt? erase
  rw [List.find?_filter]
  by_cases at_p : reached = p.components
  · rw [if_pos at_p, Option.map_eq_none_iff, List.find?_eq_none]
    simp [beq_eq_false_iff, at_p]
  · rw [if_neg at_p]
    congr 2
    funext f
    by_cases there : f.1.components = reached
    · simp [beq_eq_false_iff, there, at_p]
    · simp [there]

theorem textAt?_put (s : FileSet) (p : Path) (text : String) (reached : List Component) :
    (s.put p text).textAt? reached =
      if reached = p.components then some text else s.textAt? reached := by
  have behind := textAt?_erase s p reached
  by_cases at_p : reached = p.components
  · simp [textAt?, put, at_p]
  · rw [if_neg at_p] at behind ⊢
    rw [← behind]
    simp [textAt?, put, Ne.symm at_p]

theorem text?_put (s : FileSet) (p : Path) (text : String) (q : Path) :
    (s.put p text).text? q = if (q == p) = true then some text else s.text? q := by
  rw [text?_eq_textAt?, textAt?_put]
  simp [beq_iff, text?_eq_textAt?]

theorem contains_erase_self (s : FileSet) (p : Path) : (s.erase p).contains p = false := by
  rw [contains, text?_eq_textAt?, textAt?_erase, if_pos rfl]
  rfl

theorem contains_erase {q : Path} (absent : s.contains q = false) (p : Path) :
    (s.erase p).contains q = false := by
  rw [contains, text?_eq_textAt?, textAt?_erase]
  split
  · rfl
  · exact absent

theorem contains_withoutFileAt {q : Path} (absent : s.contains q = false) (p : Path) :
    (s.withoutFileAt p).contains q = false := by
  unfold withoutFileAt
  split
  · exact contains_erase absent p.normalize
  · exact absent

theorem hasFolder_of_erase {s : FileSet} {p : Path} {reached : List Component}
    (h : (s.erase p).hasFolder reached = true) : s.hasFolder reached = true := by
  rw [hasFolder_iff] at h ⊢
  obtain rfl | ⟨f, mem, below⟩ | standing := h
  · exact .inl rfl
  · exact .inr (.inl ⟨f, (List.mem_filter.1 mem).1, below⟩)
  · exact .inr (.inr standing)

/-- A folder that is there whether or not there are files below it. -/
def Stands (s : FileSet) (folder : Path) : Prop :=
  ∃ f ∈ s.folders, folder.components <+: f.components

variable {folder : Path} {name : List Char}

theorem prefix_of_below (at_p : p.components = folder.components ++ [.name name])
    (below : reached <+: p.components) (strictly : reached ≠ p.components) :
    reached <+: folder.components := by
  rw [at_p, List.prefix_concat_iff, ← at_p] at below
  exact below.resolve_left strictly

theorem Stands.hasFolder (h : s.Stands folder) (below : reached <+: folder.components) :
    s.hasFolder reached = true := by
  obtain ⟨f, mem, standing⟩ := h
  exact hasFolder_iff.2 (.inr (.inr ⟨f, mem, below.trans standing⟩))

/-- Where any folder stands, the working folder does. -/
theorem Stands.working (h : s.Stands folder) : s.Stands ⟨""⟩ := by
  obtain ⟨f, mem, -⟩ := h
  exact ⟨f, mem, List.nil_prefix⟩

/-- Removing a file from a folder that stands leaves all folders. -/
theorem Stands.hasFolder_erase (h : s.Stands folder)
    (at_p : p.components = folder.components ++ [.name name]) (reached : List Component) :
    (s.erase p).hasFolder reached = s.hasFolder reached := by
  rw [Bool.eq_iff_iff]
  refine ⟨hasFolder_of_erase, fun there => ?_⟩
  obtain rfl | ⟨f, mem, below, strictly⟩ | standing := hasFolder_iff.1 there
  · exact hasFolder_iff.2 (.inl rfl)
  · by_cases is_p : (f.1 == p) = true
    · rw [beq_iff.1 is_p] at below strictly
      exact Stands.hasFolder (s := s.erase p) h (prefix_of_below at_p below strictly)
    · have kept : f ∈ (s.erase p).files := List.mem_filter.2 ⟨mem, by simpa using is_p⟩
      exact hasFolder_iff.2 (.inr (.inl ⟨f, kept, below, strictly⟩))
  · exact hasFolder_iff.2 (.inr (.inr standing))

/-- Putting a file into a folder that stands makes no folders. -/
theorem Stands.hasFolder_put (h : s.Stands folder)
    (at_p : p.components = folder.components ++ [.name name]) (text : String)
    (reached : List Component) : (s.put p text).hasFolder reached = s.hasFolder reached := by
  rw [← h.hasFolder_erase at_p, Bool.eq_iff_iff]
  constructor
  · intro there
    obtain rfl | ⟨f, mem, below, strictly⟩ | standing := hasFolder_iff.1 there
    · exact hasFolder_iff.2 (.inl rfl)
    · rcases List.mem_cons.1 mem with rfl | mem
      · exact Stands.hasFolder (s := s.erase p) h (prefix_of_below at_p below strictly)
      · exact hasFolder_iff.2 (.inr (.inl ⟨f, mem, below, strictly⟩))
    · exact hasFolder_iff.2 (.inr (.inr standing))
  · intro there
    obtain rfl | ⟨f, mem, below⟩ | standing := hasFolder_iff.1 there
    · exact hasFolder_iff.2 (.inl rfl)
    · exact hasFolder_iff.2 (.inr (.inl ⟨f, List.mem_cons_of_mem _ mem, below⟩))
    · exact hasFolder_iff.2 (.inr (.inr standing))

/-- The file at a path is removed, and no folder comes to be there. -/
theorem vacant_withoutFileAt (no_folder : s.place p ≠ .folder) : (s.withoutFileAt p).Vacant p := by
  unfold withoutFileAt
  split
  · refine ⟨Option.eq_none_iff_forall_ne_some.2 fun text found => ?_, fun folder => no_folder ?_⟩
    · have at_end := textAt?_of_place (fileAt?_eq_some_iff.1 found)
      rw [textAt?_erase, if_pos rfl] at at_end
      cases at_end
    · exact place_folder_mono (fun _ => hasFolder_of_erase) folder
  · next no_file =>
    refine ⟨Option.eq_none_iff_forall_ne_some.2 fun text found => ?_, no_folder⟩
    exact no_file text (fileAt?_eq_some_iff.1 found)

end FileSet
end TradeScript
