import LiveDoc.Command.Run
import LiveDoc.Proofs.FileTree.Following
import LiveDoc.Proofs.Include.Flattening
import LiveDoc.Proofs.Run.Bookkeeping
import LiveDoc.Proofs.Run.Persistence
import LiveDoc.Proofs.Run.Stations
import Mathlib

namespace LiveDoc.Command

variable {tree : FileTree} {source : SourceOptions} {output directory : Option String}

-- What an expansion needs besides its document.
structure Setup where
  config : Config
  settings : Settings
  executor : Executor Unit

def prepare (tree : FileTree) (source : SourceOptions) (directory : Option String) :
    Except ConfigError Setup := do
  let config := withArtifacts (← source.load tree) directory
  let settings ← config.settings
  let executor ← config.executor
  return ⟨config, settings, executor⟩

def Setup.check (setup : Setup) (tree : FileTree) (source : SourceOptions) :
    Except DocumentError Classified × SourceMap :=
  (LiveDoc.check tree setup.settings (.file source.input) source.directory
    setup.executor.language).run .empty

def Setup.expand (setup : Setup) (tree : FileTree) (source : SourceOptions) :
    Except RunError Expansion × SourceMap :=
  LiveDoc.expand setup.executor () tree setup.settings (.file source.input) source.directory

def Setup.place (setup : Setup) (output : Option String) : String :=
  artifactPlace output setup.config.layout.artifactDirectory

theorem runExpand_eq (tree : FileTree) (device : Device) (source : SourceOptions)
    (output directory : Option String) :
    runExpand tree device source output directory =
      match prepare tree source directory with
      | .error error => configFailure tree error
      | .ok setup =>
          match setup.expand tree source with
          | (.error error, map) => runFailure tree map error
          | (.ok expansion, map) =>
              writeExpansion tree device map expansion setup.config.layout.artifactDirectory
                output := by
  unfold runExpand prepare
  cases source.load tree with
  | error error => rfl
  | ok config =>
      simp only [bind, Except.bind, pure, Except.pure]
      cases (withArtifacts config directory).settings with
      | error error => rfl
      | ok settings =>
          dsimp only
          cases (withArtifacts config directory).executor with
          | error error => rfl
          | ok executor => rfl

theorem run_eq_runExpand {arguments : List String} {color : Bool} (scratch : String)
    (device : Device) (h : parse arguments = .ok ⟨.expand source output directory, color⟩) :
    run tree scratch arguments device = runExpand tree device source output directory := by
  unfold run
  rw [h]
  rfl

-- A document that does not pass the check is not run, whatever the executor is: the host comes back
-- as it was given.
theorem expandFrom_of_check_eq_error {σ : Type} {settings : Settings} {root : Root}
    {base language : String} {error : DocumentError} {map : SourceMap}
    (h : (LiveDoc.check tree settings root base language).run .empty = (.error error, map))
    (executor : Executor σ) (host : σ) (hlanguage : executor.language = language) :
    expandFrom executor host tree settings root base = (.error (.document error), map, host) := by
  unfold expandFrom
  rw [hlanguage, h]

theorem expand_of_check_eq_error {setup : Setup} {error : DocumentError} {map : SourceMap}
    (h : setup.check tree source = (.error error, map)) :
    setup.expand tree source = (.error (.document error), map) := by
  rw [Setup.expand, LiveDoc.expand, expandFrom_of_check_eq_error h setup.executor () rfl]

theorem expand_of_run_eq_error {setup : Setup} {classified : Classified} {map : SourceMap}
    {error : RunError} {progress : Progress Unit}
    (hcheck : setup.check tree source = (.ok classified, map))
    (hrun : (runDocument setup.executor classified).run (.start () setup.settings.stem) =
      (.error error, progress)) :
    setup.expand tree source = (.error error, map) := by
  unfold Setup.check at hcheck
  unfold Setup.expand LiveDoc.expand expandFrom
  rw [hcheck]
  simp only [runClassified, hrun, Except.map]

-- A command that has failed has said so and has printed no document. `left` is what it leaves of
-- the files.
structure Outcome.Failed (outcome : Outcome) (left : FileTree) : Prop where
  code : outcome.code ≠ 0
  output : outcome.output = ""
  tree : outcome.tree = left

theorem failed_configFailure (tree : FileTree) (error : ConfigError) :
    (configFailure tree error).Failed tree := ⟨Nat.one_ne_zero, rfl, rfl⟩

theorem failed_runFailure (tree : FileTree) (map : SourceMap) (error : RunError) :
    (runFailure tree map error).Failed tree := ⟨Nat.one_ne_zero, rfl, rfl⟩

theorem failed_of_persist {device : Device} {map : SourceMap} {expansion : Expansion}
    {own failed : String} (h : (persistArtifacts tree (artifactPlace output own)
      expansion.artifacts device).2 = .error failed) :
    (writeExpansion tree device map expansion own output).Failed
      (persistArtifacts tree (artifactPlace output own) expansion.artifacts device).1 := by
  rcases hpersist : persistArtifacts tree (artifactPlace output own) expansion.artifacts device with
    ⟨left, e | done⟩
  · unfold writeExpansion Expansion.write
    cases output with
    | some path | none =>
        dsimp only
        rw [hpersist]
        exact failed_runFailure left map _
  · rw [hpersist] at h
    cases h

theorem failed_of_write {device : Device} {map : SourceMap} {expansion : Expansion}
    {own path failed : String} (houtput : output = some path)
    (h : (expansion.write tree path (artifactPlace output own) device).2 = .error failed) :
    (writeExpansion tree device map expansion own output).Failed
      (persistArtifacts tree (artifactPlace output own) expansion.artifacts device).1 := by
  subst houtput
  rw [← tree_of_write_eq_error h]
  unfold writeExpansion
  dsimp only
  rcases hwrite : expansion.write tree path (artifactPlace (some path) own) device with
    ⟨left, e | done⟩
  · exact failed_runFailure left map _
  · rw [hwrite] at h
    cases h

-- A document that cannot be printed fails the command too. What has been printed cannot be taken back.
theorem code_of_print {device : Device} {map : SourceMap} {expansion : Expansion} {own : String}
    {count : Nat} (houtput : output = none)
    (h : device.printed expansion.markdown = some count) :
    (writeExpansion tree device map expansion own output).code ≠ 0 ∧
      (writeExpansion tree device map expansion own output).tree =
        (persistArtifacts tree (artifactPlace output own) expansion.artifacts device).1 := by
  subst houtput
  unfold writeExpansion
  dsimp only
  rcases persistArtifacts tree (artifactPlace none own) expansion.artifacts device with
    ⟨left, e | done⟩
  · exact ⟨Nat.one_ne_zero, rfl⟩
  · dsimp only
    rw [printDocument, h]
    exact ⟨Nat.one_ne_zero, rfl⟩

-- Every way in which an expansion fails, on every machine. Before anything is written no file changes,
-- whatever the blocks before the failure have declared. A document that cannot be written is not there
-- in part either: what its artifacts have left are new directories and files of their own. What does
-- not pass the check does not run: the log of the calls stays as it was.
theorem nothing_written_of_failure {arguments : List String} {color : Bool}
    (hparse : parse arguments = .ok ⟨.expand source output directory, color⟩) (tree : FileTree)
    (scratch : String) (device : Device) :
    (∀ error, prepare tree source directory = .error error →
      (run tree scratch arguments device).Failed tree) ∧
    (∀ setup, prepare tree source directory = .ok setup →
      (∀ error map, setup.check tree source = (.error error, map) →
        (run tree scratch arguments device).Failed tree) ∧
      (∀ classified map error progress, setup.check tree source = (.ok classified, map) →
        (runDocument setup.executor classified).run (.start () setup.settings.stem) =
          (.error error, progress) →
        (run tree scratch arguments device).Failed tree) ∧
      ∀ expansion map, setup.expand tree source = (.ok expansion, map) →
        tree.Takes expansion.artifacts
          (persistArtifacts tree (setup.place output) expansion.artifacts device).1 ∧
        (∀ failed,
          (persistArtifacts tree (setup.place output) expansion.artifacts device).2 =
              .error failed ∨
            (∃ path, output = some path ∧
              (expansion.write tree path (setup.place output) device).2 = .error failed) →
          (run tree scratch arguments device).Failed
            (persistArtifacts tree (setup.place output) expansion.artifacts device).1) ∧
        ∀ count, output = none → device.printed expansion.markdown = some count →
          (run tree scratch arguments device).code ≠ 0 ∧
            (run tree scratch arguments device).tree =
              (persistArtifacts tree (setup.place output) expansion.artifacts device).1) ∧
    ∀ settings root base language error map,
      (LiveDoc.check tree settings root base language).run .empty = (.error error, map) →
        ∀ {σ : Type} (executor : Executor σ) (host : σ) (log : List Call),
          executor.language = language →
            LiveDoc.expand executor host tree settings root base =
                (.error (.document error), map) ∧
              expandFrom executor.logged (host, log) tree settings root base =
                (.error (.document error), map, (host, log)) := by
  rw [run_eq_runExpand scratch device hparse, runExpand_eq]
  refine ⟨fun error hprepare => ?_, fun setup hprepare => ?_,
    fun settings root base language error map hcheck σ executor host log hlanguage => ?_⟩
  · rw [hprepare]
    exact failed_configFailure tree error
  · rw [hprepare]
    have hfailed : ∀ {error map}, setup.expand tree source = (.error error, map) →
        (match setup.expand tree source with
          | (.error error, map) => runFailure tree map error
          | (.ok expansion, map) => writeExpansion tree device map expansion
              setup.config.layout.artifactDirectory output).Failed tree := by
      intro error map hexpand
      rw [hexpand]
      exact failed_runFailure tree map error
    refine ⟨fun error map hcheck => ?_, fun classified map error progress hcheck hrun => ?_,
      fun expansion map hexpand => ?_⟩
    · exact hfailed (expand_of_check_eq_error hcheck)
    · exact hfailed (expand_of_run_eq_error hcheck hrun)
    · dsimp only
      rw [hexpand]
      refine ⟨takes_persistArtifacts tree device _ expansion.artifacts, fun failed h => ?_,
        fun count houtput hprint => code_of_print houtput hprint⟩
      rcases h with hpersist | ⟨path, houtput, hwrite⟩
      · exact failed_of_persist hpersist
      · exact failed_of_write houtput hwrite
  · refine ⟨?_, expandFrom_of_check_eq_error hcheck executor.logged (host, log) hlanguage⟩
    rw [LiveDoc.expand, expandFrom_of_check_eq_error hcheck executor host hlanguage]

-- A document whose only block saves one file. Next to it there is a directory.
def savingText : String := "```calc\nsave(\"TXT\", true)\n```\n"

def project : FileTree := ⟨[(["d"], .file savingText.toUTF8), (["o"], .directory)], []⟩

def projectSource : SourceOptions := ⟨"d", none, none, none⟩

def projectSetup : Setup := ⟨.standard, .standard, .calc⟩

def projectMap : SourceMap := SourceMap.empty.push ⟨"d", some ["d"], savingText⟩

theorem linkFree_project : project.LinkFree := by
  intro location target hlink
  unfold FileTree.entry? at hlink
  split at hlink
  · rename_i hfind
    have hmem := List.mem_of_find?_eq_some hfind
    simp only [project, List.mem_cons, List.not_mem_nil, or_false, Prod.mk.injEq] at hmem
    rcases hmem with ⟨-, rfl⟩ | ⟨-, rfl⟩ <;> cases hlink
  · split at hlink <;> cases hlink

theorem prepare_project : prepare project projectSource none = .ok projectSetup := by
  have hchecked : FileTree.checked "weave.toml" = .ok [.name "weave.toml"] :=
    FileTree.checked_of_component (by decide) (by decide) (by decide) (by decide) (by decide)
  have hnone : project.entry? ["weave.toml"] = none := rfl
  have hseek : project.seek "weave.toml" = .error .notFound := by
    rw [FileTree.seek_component linkFree_project hchecked (by cbv) rfl (by decide)]
    exact if_pos hnone
  have habsent : project.exists? "weave.toml" = false := by
    rw [FileTree.exists?, FileTree.find?, hseek]
    rfl
  have hpath : Config.pathBeside "d" = "weave.toml" := by cbv
  rw [projectSource, prepare, SourceOptions.load, Config.load]
  simp only [hpath, habsent]
  cbv

theorem parseDocument_saving : parseDocument savingText.toList 0 = .ok saving := by
  have hblocks :
      Markdown.blocks (Text.slice savingText.toList 0 (Text.byteCount savingText.toList)) =
        ([.fenced ⟨0, 29⟩ "calc".toList "save(\"TXT\", true)\n".toList], []) := by
    cbv
  have hsegments : segments savingText.toList ⟨0, Text.byteCount savingText.toList⟩ =
      [.fenced ⟨0, 30⟩ "calc".toList "save(\"TXT\", true)\n".toList] := by
    rw [segments, regions, hblocks]
    decide +kernel
  rw [parseDocument, parseWindow, hsegments]
  cbv

theorem check_project : projectSetup.check project projectSource =
    (.ok ⟨saving, "calc"⟩, projectMap) := by
  have hlocate : project.locate "d" = .ok ["d"] := by cbv
  have htext : project.textAt ["d"] = .ok savingText := FileTree.textAt_of_entry? rfl
  have hload : SourceMap.empty.load project "d" = .ok (0, projectMap) :=
    SourceMap.load_of_read_eq_ok (SourceMap.read_of_new hlocate rfl htext)
  have hroot : (Root.load project (.file "d")).run .empty = (.ok saving, projectMap) := by
    rw [Root.load, loadRoot, Action.run_bind_of_ok ((run_loadSource "d" _).trans (by rw [hload])),
      Action.run_bind_of_ok (Action.run_get _), show projectMap.text 0 = savingText from
        SourceMap.text_push_size .empty _,
      parseDocument_saving]
    rfl
  have hfree : saving.hasDirectives = false := rfl
  rw [Setup.check, LiveDoc.check, projectSource, Action.run_bind_of_ok hroot,
    Action.run_bind_of_ok (run_resolve_of_free hfree _ _ _ _)]
  dsimp only [projectSetup]
  rw [show classify Settings.standard.registry Executor.calc.language saving = _ from
    classify_saving]
  rfl

def projectExpansion : Expansion :=
  ⟨assemble projectSetup.settings.layout [.block savingBlock (some ⟨"", ["block-000-1.txt"]⟩)],
    [saved]⟩

theorem expand_project : projectSetup.expand project projectSource =
    (.ok projectExpansion, projectMap) := by
  have hcheck := check_project
  rw [Setup.check] at hcheck
  rw [Setup.expand, LiveDoc.expand, expandFrom, hcheck]
  dsimp only [projectSetup]
  rw [runClassified, show Settings.standard.stem = "block" from rfl, run_saving]
  rfl

-- The project with what the run of its document leaves beside the document.
def persisted : FileTree :=
  (project.set ["artifacts"] .directory).set ["block-000-1.txt", "artifacts"] (.file saved.bytes)

theorem steps_directory : steps "./artifacts" = [.stay] ++ [.name "artifacts"] := by
  have hcut : "./artifacts" = "." ++ "/" ++ "artifacts" := by decide
  rw [hcut, steps_append_slash, steps_dot,
    steps_of_component (by decide) (by decide) (by decide) (by decide)]

theorem steps_file : steps "./artifacts/block-000-1.txt" =
    [.stay, .name "artifacts", .name "block-000-1.txt"] := by
  have hcut : "./artifacts/block-000-1.txt" = "./artifacts" ++ "/" ++ "block-000-1.txt" := by
    decide
  rw [hcut, steps_append_slash, steps_directory,
    steps_of_component (by decide) (by decide) (by decide) (by decide)]
  rfl

theorem make_project :
    project.makeDirectory "./artifacts" = .ok (project.set ["artifacts"] .directory) := by
  have htrimmed : Path.withoutEnd "./artifacts" = "./artifacts" := by decide
  have hplace : project.origin "./artifacts" = [] := by cbv
  have htaken := @FileTree.accepted_of_short "./artifacts" (by decide) (by decide) (by decide)
  have hroot : project.isDirectoryAt (project.origin "./artifacts") = true := by
    rw [hplace]
    rfl
  have hslot : project.slot "./artifacts" = .ok ["artifacts"] := by
    rw [FileTree.slot_of_idle (steps_directory ▸ htaken) (by simp [Idle]) hroot (by decide), hplace]
  rw [FileTree.makeDirectory, htrimmed, FileTree.free_of_slot hslot rfl]
  rfl

theorem overwrite_project : (project.set ["artifacts"] .directory).overwrite .sound
    "./artifacts/block-000-1.txt" saved.bytes = (persisted, .ok ()) := by
  have hfree := ((FileTree.gains_makeDirectory make_project).extends linkFree_project).linkFree
  have hrelative : Path.isAbsolute "./artifacts/block-000-1.txt" = false := by
    rw [Path.isAbsolute, ← Bool.not_eq_true, String.startsWith_string_iff]
    decide
  have hplace : (project.set ["artifacts"] .directory).origin "./artifacts/block-000-1.txt" = [] := by
    rw [FileTree.origin, hrelative]
    rfl
  have htarget : (project.set ["artifacts"] .directory).target "./artifacts/block-000-1.txt" =
      .ok ["block-000-1.txt", "artifacts"] := by
    rw [FileTree.target, FileTree.accepted_of_short (by decide) (by decide) (by decide), steps_file]
    simp only [bind, Except.bind, FileTree.walk_cons hfree, FileTree.walk, hplace]
    rfl
  rw [FileTree.overwrite, htarget]
  dsimp only
  rw [FileTree.fill]
  dsimp only [Device.sound]
  rw [FileTree.set_set, persisted]

theorem persist_project : persistArtifacts project "./artifacts" [saved] =
    (persisted, .ok ["./artifacts/block-000-1.txt"]) := by
  have hjoin : Path.join "./artifacts" saved.name = "./artifacts/block-000-1.txt" := by
    have hrelative : Path.isAbsolute saved.name = false := by cbv
    have hopen : "./artifacts".endsWith "/" = false := by
      rw [← Bool.not_eq_true, String.endsWith_eq_endsWith_toSlice,
        String.Slice.endsWith_string_iff]
      decide
    rw [Path.join, hrelative, hopen]
    decide
  rw [persistArtifacts, FileTree.makeDirectories_of_ok (by decide) make_project]
  simp only [writeArtifacts, hjoin, overwrite_project]
  rfl

-- The document cannot take the place of a directory.
theorem failed_over_directory :
    (run project "" ["expand", "d", "-o", "o"]).Failed persisted ∧
      project.Takes [saved] persisted := by
  have hparse : parse ["expand", "d", "-o", "o"] =
      .ok ⟨.expand projectSource (some "o") none, true⟩ := by
    cbv
  have hplace : projectSetup.place (some "o") = "./artifacts" := by cbv
  have hpersist : persistArtifacts project "./artifacts" projectExpansion.artifacts =
      (persisted, .ok ["./artifacts/block-000-1.txt"]) := persist_project
  have hwrite : ∃ failed,
      (projectExpansion.write project "o" "./artifacts").2 = .error failed := by
    unfold Expansion.write
    rw [hpersist]
    dsimp only
    rcases hreplace : persisted.replace .sound "o" projectExpansion.markdown.toUTF8 with
      ⟨left, failed | done⟩
    · exact ⟨failed, rfl⟩
    · obtain ⟨name, front, place, hsteps, hwalk, -, hfile, -⟩ := FileTree.replace_eq_ok hreplace
      have hname : steps "o" = [.name "o"] :=
        steps_of_component (by decide) (by decide) (by decide) (by decide)
      have horigin : persisted.origin "o" = [] := by cbv
      rw [hname] at hsteps
      have hlast : [] ++ [Step.name "o"] = front ++ [.name name] := hsteps
      obtain ⟨rfl, hsame⟩ := List.append_inj' hlast rfl
      rw [horigin, FileTree.walk] at hwalk
      cases hwalk
      cases hsame
      exact (hfile rfl).elim
  obtain ⟨failed, hwrite⟩ := hwrite
  obtain ⟨-, hprepared, -⟩ := nothing_written_of_failure hparse project "" .sound
  obtain ⟨-, -, hwritten⟩ := hprepared projectSetup prepare_project
  rw [hplace] at hwritten
  obtain ⟨htakes, hfailed, -⟩ := hwritten projectExpansion projectMap expand_project
  have hleft := hfailed failed (.inr ⟨"o", rfl, hwrite⟩)
  rw [hpersist] at hleft htakes
  exact ⟨hleft, htakes⟩

end LiveDoc.Command
