import TradeScript.Plugin.Build
import TradeScript.Proofs.Command.Place
import TradeScript.Proofs.Plugin.Wiring

/-!
# What builds leave behind

A build has two files to look after: the temporary source and the output. Compilers are arbitrary here
but for two things: they make no folder at the output, and the folder for temporary files stays
(`Plugin.Call.Sound`). With such compilers a place that is ready for builds stays ready
(`Plugin.Call.ready_run`), so that all of a sequence of builds have the effects that are stated for
one of them (`Plugin.Call.Effects`, `Plugin.effects_of_runs`).
-/

namespace TradeScript

/-! ## Places that are ready -/

/-- At most a file stands at the output, and temporary files have a folder. -/
structure FileSet.Ready (s : FileSet) (output folder : Path) : Prop where
  no_folder : s.place output ≠ .folder
  stands : s.Stands folder

namespace FileSet.Ready

variable {s : FileSet} {output folder p : Path}

/-- A file that is put into a folder that stands is in nobody's way. -/
theorem put (h : s.Ready output folder) {above : Path} (stands : s.Stands above) {name : List Char}
    (at_p : p.components = above.components ++ [.name name]) (text : String) :
    (s.put p text).Ready output folder := by
  refine ⟨fun is_folder => h.no_folder ?_, h.stands⟩
  refine place_folder_mono (fun reached there => ?_) is_folder
  rwa [stands.hasFolder_put at_p] at there

theorem erase (h : s.Ready output folder) (p : Path) : (s.erase p).Ready output folder :=
  ⟨fun is_folder => h.no_folder (place_folder_mono (fun _ => hasFolder_of_erase) is_folder), h.stands⟩

theorem withoutFileAt (h : s.Ready output folder) (p : Path) :
    (s.withoutFileAt p).Ready output folder := by
  unfold FileSet.withoutFileAt
  split
  · exact h.erase p.normalize
  · exact h

end FileSet.Ready

namespace Plugin

/-! ## One build -/

/-- One run of the toolchain: the algorithm that it composes, the compiler that it calls, and the
place of its temporary source. -/
structure Call where
  grammar : Grammar
  templates : Templates
  scripts : FileSet
  algorithm : Path
  compiler : Compiler
  scratch : Path

namespace Call

/-- What is composed. -/
def composed (call : Call) : Except Failure Plugin :=
  (compose call.grammar call.templates call.scripts call.algorithm).start.1

/-- The run that builds `output`. -/
def run (call : Call) (output : Path) (files : FileSet) : Build :=
  Plugin.run call.grammar call.templates call.scripts call.compiler call.algorithm output
    call.scratch files

/-- The job of the compiler. -/
def job (call : Call) (output : Path) (plugin : Plugin) : Job :=
  ⟨call.scratch, output, plugin.includeFolders⟩

/-- The files that the compiler finds. -/
def found (call : Call) (before : FileSet) (plugin : Plugin) : FileSet :=
  before.put call.scratch plugin.source

/-- What the compiler leaves behind. -/
def compiled (call : Call) (output : Path) (before : FileSet) (plugin : Plugin) : Compiled :=
  call.compiler (call.job output plugin) (call.found before plugin)

/-- The temporary source is another file than the output, in a folder for temporary files; the
compiler makes no folder at the output and leaves that one. -/
structure Sound (call : Call) (output folder : Path) : Prop where
  inside : ∃ name, call.scratch.components = folder.components ++ [.name name]
  other : output.normalize.components ≠ call.scratch.components
  careful : ∀ folders files, files.Ready output folder →
    (call.compiler ⟨call.scratch, output, folders⟩ files).files.Ready output folder

/-- What a call does with a plugin that it composed. -/
structure Compiles (call : Call) (output : Path) (before : FileSet) (plugin : Plugin)
    (built : Build) : Prop where
  called : built.compilation = some (call.job output plugin, call.compiled output before plugin)
  source : (call.found before plugin).text? call.scratch = some plugin.source
  others : ∀ p, (p == call.scratch) = false →
    (call.found before plugin).text? p = before.text? p
  gone : built.files.contains call.scratch = false
  failed : ∀ failure, (call.compiled output before plugin).failure = some failure →
    built.result = .error failure ∧ built.files.Vacant output
  succeeded : (call.compiled output before plugin).failure = none →
    built.files.fileAt? output = (call.compiled output before plugin).files.fileAt? output ∧
    built.result = if (call.compiled output before plugin).files.contains call.scratch then .ok ()
      else .error (leftover call.scratch)

/-- What a call does, given the files before it. -/
structure Effects (call : Call) (output : Path) (before : FileSet) (built : Build) : Prop where
  refused : ∀ failure, call.composed = .error failure → built = ⟨.error failure, none, before⟩
  compiles : ∀ plugin, call.composed = .ok plugin → call.Compiles output before plugin built

variable {call : Call} {output folder : Path} {before : FileSet} {plugin : Plugin}

theorem run_of_error {failure : Failure} (h : call.composed = .error failure) :
    call.run output before = ⟨.error failure, none, before⟩ := by
  unfold run Plugin.run
  unfold composed at h
  rw [h]

theorem run_of_failure {failure : Failure} (h : call.composed = .ok plugin)
    (failed : (call.compiled output before plugin).failure = some failure) :
    call.run output before =
      ⟨.error failure, some (call.job output plugin, call.compiled output before plugin),
        ((call.compiled output before plugin).files.erase call.scratch).withoutFileAt output⟩ := by
  unfold run Plugin.run
  unfold composed at h
  unfold compiled job found at failed ⊢
  rw [h]
  dsimp only
  unfold build
  dsimp only
  rw [failed]

theorem run_of_success (h : call.composed = .ok plugin)
    (succeeded : (call.compiled output before plugin).failure = none) :
    call.run output before =
      ⟨if (call.compiled output before plugin).files.contains call.scratch then .ok ()
          else .error (leftover call.scratch),
        some (call.job output plugin, call.compiled output before plugin),
        (call.compiled output before plugin).files.erase call.scratch⟩ := by
  unfold run Plugin.run
  unfold composed at h
  unfold compiled job found at succeeded ⊢
  rw [h]
  dsimp only
  unfold build
  dsimp only
  rw [succeeded]

theorem text?_found (call : Call) (before : FileSet) (plugin : Plugin) (p : Path) :
    (call.found before plugin).text? p =
      if (p == call.scratch) = true then some plugin.source else before.text? p := by
  rw [found, FileSet.text?_put]

theorem ready_compiled (sound : call.Sound output folder) (ready : before.Ready output folder)
    (plugin : Plugin) : (call.compiled output before plugin).files.Ready output folder := by
  obtain ⟨name, inside⟩ := sound.inside
  exact sound.careful plugin.includeFolders _ (ready.put ready.stands inside plugin.source)

/-- A place that is ready for a build is ready for the next one. -/
theorem ready_run (sound : call.Sound output folder) (ready : before.Ready output folder) :
    (call.run output before).files.Ready output folder := by
  cases composed : call.composed with
  | error failure =>
    rw [run_of_error composed]
    exact ready
  | ok plugin =>
    have erased := (ready_compiled sound ready plugin).erase call.scratch
    cases failure : (call.compiled output before plugin).failure with
    | some failed =>
      rw [run_of_failure composed failure]
      exact erased.withoutFileAt output
    | none =>
      rw [run_of_success composed failure]
      exact erased

theorem compiles_run (sound : call.Sound output folder) (ready : before.Ready output folder)
    (composed : call.composed = .ok plugin) :
    call.Compiles output before plugin (call.run output before) := by
  have ready' := ready_compiled sound ready plugin
  have source : (call.found before plugin).text? call.scratch = some plugin.source := by
    rw [text?_found, if_pos BEq.rfl]
  have others (p : Path) (other : (p == call.scratch) = false) :
      (call.found before plugin).text? p = before.text? p := by
    rw [text?_found, other, if_neg Bool.false_ne_true]
  cases failure : (call.compiled output before plugin).failure with
  | some failed =>
    rw [run_of_failure composed failure]
    refine ⟨rfl, source, others, ?_, fun other same => ?_, fun none_there => ?_⟩
    · exact FileSet.contains_withoutFileAt (FileSet.contains_erase_self _ call.scratch) output
    · rw [failure] at same
      cases same
      exact ⟨rfl, FileSet.vacant_withoutFileAt (ready'.erase call.scratch).no_folder⟩
    · rw [failure] at none_there
      cases none_there
  | none =>
    rw [run_of_success composed failure]
    -- the source is removed from a folder that stands, so the output is reached as before
    refine ⟨rfl, source, others, FileSet.contains_erase_self _ call.scratch, fun other same => ?_,
      fun _ => ⟨?_, rfl⟩⟩
    · rw [failure] at same
      cases same
    · obtain ⟨name, inside⟩ := sound.inside
      refine FileSet.fileAt?_congr (ready'.stands.hasFolder_erase inside) ?_
      rw [FileSet.textAt?_erase, if_neg sound.other]

theorem effects_run (sound : call.Sound output folder) (ready : before.Ready output folder) :
    call.Effects output before (call.run output before) :=
  ⟨fun _ composed => run_of_error composed, fun _ composed => compiles_run sound ready composed⟩

/-- No stale or partial library passes for a good one: a build that succeeds is one whose compiler
succeeded, and the output is what that compiler left. -/
theorem Effects.of_ok {built : Build} (h : call.Effects output before built)
    (ok : built.result = .ok ()) : ∃ plugin, call.composed = .ok plugin ∧
      (call.compiled output before plugin).failure = none ∧
      built.files.fileAt? output = (call.compiled output before plugin).files.fileAt? output := by
  cases composed : call.composed with
  | error failure =>
    rw [h.refused failure composed] at ok
    cases ok
  | ok plugin =>
    have compiles := h.compiles plugin composed
    cases failure : (call.compiled output before plugin).failure with
    | some failed => cases (compiles.failed failed failure).1.symm.trans ok
    | none => exact ⟨plugin, rfl, failure, (compiles.succeeded failure).1⟩

end Call

/-! ## Builds one after another -/

/-- A call among others: the files before it, and what it built. -/
structure Round where
  before : FileSet
  call : Call
  built : Build

/-- Some calls, each of which finds the files that the ones before it left. -/
def runs (output : Path) (files : FileSet) : List Call → List Round
  | [] => []
  | call :: calls =>
    ⟨files, call, call.run output files⟩ :: runs output (call.run output files).files calls

/-- Each of some builds of one output has the effects of a build, whatever the compilers did in the
ones before it: if nothing is composed, then nothing changes; otherwise the compiler finds the composed
source, which is gone afterwards, and the output is as the compiler left it, or gone if it failed. -/
theorem effects_of_runs {output folder : Path} {files : FileSet} {calls : List Call}
    (ready : files.Ready output folder) (sound : ∀ call ∈ calls, call.Sound output folder) :
    ∀ round ∈ runs output files calls, round.before.Ready output folder ∧
      round.built.files.Ready output folder ∧
      round.call.Effects output round.before round.built := by
  induction calls generalizing files with
  | nil => simp [runs]
  | cons call calls ih =>
    rw [List.forall_mem_cons] at sound
    have next := Call.ready_run sound.1 ready
    rw [runs, List.forall_mem_cons]
    exact ⟨⟨ready, next, Call.effects_run sound.1 ready⟩, ih next sound.2⟩

/-! ### A compiler that fails, and one that does not -/

/-- A compiler that writes some text to the output or does not, removes the source or does not, and
fails or does not. -/
def standIn (written : Option String) (removesSource : Bool) (failure : Option Failure) : Compiler :=
  fun job files =>
    let files := if removesSource then files.erase job.source else files
    let files := match written with
      | some text => files.put job.output.normalize text
      | none => files
    ⟨files, "", "", failure⟩

theorem ready_standIn {output folder : Path} {name : List Char}
    (below : output.normalize.components = [.name name]) (written : Option String)
    (removesSource : Bool) (failure : Option Failure) {files : FileSet}
    (ready : files.Ready output folder) (scratch : Path) (folders : List Path) :
    (standIn written removesSource failure ⟨scratch, output, folders⟩ files).files.Ready
      output folder := by
  have ready' : (if removesSource then files.erase scratch else files).Ready output folder := by
    split
    · exact ready.erase scratch
    · exact ready
  cases written with
  | none => exact ready'
  | some text => exact ready'.put ready'.stands.working below text

/-- A build of the algorithm with two instances. -/
def twinsCall (compiler : Compiler) : Call :=
  ⟨Script.grammar, .default, twins, ⟨"a.dts"⟩, compiler, ⟨"/tmp/source.cpp"⟩⟩

/-- A library from before, and the folder for temporary files. -/
def staleLibrary : FileSet :=
  { FileSet.empty with files := [(⟨"out.so"⟩, "stale")], folders := [⟨"/tmp"⟩] }

theorem ready_staleLibrary : staleLibrary.Ready ⟨"out.so"⟩ ⟨"/tmp"⟩ := by
  have library : staleLibrary.place ⟨"out.so"⟩ = .file "stale" := rfl
  refine ⟨fun is_folder => ?_, ⟨"/tmp"⟩, List.mem_singleton_self _, List.prefix_refl _⟩
  rw [library] at is_folder
  cases is_folder

theorem sound_twinsCall (written : Option String) (removesSource : Bool) (failure : Option Failure) :
    (twinsCall (standIn written removesSource failure)).Sound ⟨"out.so"⟩ ⟨"/tmp"⟩ := by
  have inside : (Path.mk "/tmp/source.cpp").components =
      (Path.mk "/tmp").components ++ [.name "source.cpp".toList] := by decide
  have other : (Path.mk "out.so").normalize.components ≠ (Path.mk "/tmp/source.cpp").components := by
    decide
  have below : (Path.mk "out.so").normalize.components = [.name "out.so".toList] := by decide
  exact ⟨⟨_, inside⟩, other,
    fun folders _ ready => ready_standIn below written removesSource failure ready _ folders⟩

/-- A compiler that fails after it wrote to the output. -/
def failingCall : Call :=
  twinsCall (standIn (some "partial") true (some (.compiler "c++" "exit status: 1")))

/-- A compiler that does its work and leaves the source. -/
def workingCall : Call :=
  twinsCall (standIn (some "library") false none)

/-- The first build fails with the failure of its compiler and leaves no library, neither the stale nor
the partial one; the second succeeds. -/
theorem effects_of_runs_twins :
    staleLibrary.Ready ⟨"out.so"⟩ ⟨"/tmp"⟩ ∧
    (∀ call ∈ [failingCall, workingCall], call.Sound ⟨"out.so"⟩ ⟨"/tmp"⟩) ∧
    ∃ first second : Round,
      runs ⟨"out.so"⟩ staleLibrary [failingCall, workingCall] = [first, second] ∧
      first.built.result = .error (.compiler "c++" "exit status: 1") ∧
      first.built.files.Vacant ⟨"out.so"⟩ ∧ second.built.result = .ok () := by
  have sound : ∀ call ∈ [failingCall, workingCall], call.Sound ⟨"out.so"⟩ ⟨"/tmp"⟩ := by
    rw [List.forall_mem_cons, List.forall_mem_singleton]
    exact ⟨sound_twinsCall _ _ _, sound_twinsCall _ _ _⟩
  have effects := effects_of_runs ready_staleLibrary sound
  simp only [runs, List.forall_mem_cons] at effects
  obtain ⟨⟨-, -, first⟩, ⟨-, -, second⟩, -⟩ := effects
  have failed := (first.compiles twinsPlugin compose_twins).failed _ rfl
  have compiles := second.compiles twinsPlugin compose_twins
  refine ⟨ready_staleLibrary, sound, _, _, rfl, failed.1, failed.2, ?_⟩
  refine (compiles.succeeded rfl).2.trans (if_pos ?_)
  -- the output is another file, so the source is still there
  have still : ∀ s : FileSet, (s.put (Path.mk "out.so").normalize "library").text?
      ⟨"/tmp/source.cpp"⟩ = s.text? ⟨"/tmp/source.cpp"⟩ := by
    intro s
    rw [FileSet.text?_put, if_neg (by decide)]
  exact (congrArg Option.isSome (still _)).trans (congrArg Option.isSome compiles.source)

end Plugin

end TradeScript
