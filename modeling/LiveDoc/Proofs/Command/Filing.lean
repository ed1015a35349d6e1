import LiveDoc.Proofs.Command.Failure
import LiveDoc.Proofs.Command.References
import Mathlib

namespace LiveDoc.Command

variable {tree made left : FileTree} {device : Device} {artifacts : List Artifact} {place : String}

-- Each artifact is in a file of its own in a directory, and nothing else has changed.
structure Written (place : String) (artifacts : List Artifact) (tree left : FileTree) : Prop where
  grown : tree.Extends left
  files : ∀ artifact ∈ artifacts, left.Holds (Path.join place artifact.name) artifact.bytes
  others : ∀ location,
    (∀ artifact ∈ artifacts, location ≠ tree.placeOf (Path.join place artifact.name)) →
      left.entry? location = tree.entry? location

-- The last name on the way to a file is its own.
theorem placeOf_join {name : String} (hname : steps name = [.name name]) (tree : FileTree)
    (place : String) : ∃ above, tree.placeOf (Path.join place name) = name :: above := by
  have hrelative := relative_of_component hname
  have hlast : ∀ front : List Step, steps (Path.join place name) = front ++ [.name name] →
      ∃ above, tree.placeOf (Path.join place name) = name :: above := by
    intro front hsteps
    rw [FileTree.placeOf, hsteps, follow_append]
    exact ⟨_, rfl⟩
  by_cases hempty : place = ""
  · subst hempty
    exact hlast [] (by rw [Path.join_empty hrelative, hname]; rfl)
  · obtain ⟨front, hjoin, -⟩ := Path.join_eq hempty hrelative
    exact hlast (steps front) (by rw [hjoin, steps_append_slash, hname])

theorem placeOf_join_ne {artifact other : Artifact} (h : steps artifact.name = [.name artifact.name])
    (hother : steps other.name = [.name other.name]) (hne : artifact.name ≠ other.name)
    (tree : FileTree) (place : String) : tree.placeOf (Path.join place artifact.name) ≠
      tree.placeOf (Path.join place other.name) := by
  obtain ⟨above, hplace⟩ := placeOf_join h tree place
  obtain ⟨below, hbelow⟩ := placeOf_join hother tree place
  rw [hplace, hbelow]
  exact fun hsame => hne (List.cons.inj hsame).1

theorem written_writeArtifacts {paths : List String} (hfree : tree.LinkFree)
    (hnames : ∀ artifact ∈ artifacts, steps artifact.name = [.name artifact.name])
    (hdistinct : (artifacts.map Artifact.name).Nodup)
    (h : writeArtifacts tree device place artifacts = (left, .ok paths)) :
    Written place artifacts tree left := by
  induction artifacts generalizing tree paths with
  | nil =>
      cases h
      exact ⟨.refl hfree, fun _ h => (nomatch h), fun _ _ => rfl⟩
  | cons artifact rest ih =>
      obtain ⟨hfirst, hrest⟩ := List.forall_mem_cons.mp hnames
      obtain ⟨hnew, hdistinct⟩ := List.nodup_cons.mp hdistinct
      unfold writeArtifacts at h
      dsimp only at h
      split at h
      · cases h
      · rename_i next _ hwrite
        rcases hlater : writeArtifacts next device place rest with ⟨later, failed | others⟩
        · rw [hlater] at h
          cases h
        · rw [hlater] at h
          cases h
          obtain ⟨hnext, hholds, hkept⟩ := FileTree.holds_overwrite hfree hwrite
          have hwritten := ih hnext.linkFree hrest hdistinct hlater
          refine ⟨hnext.trans hwritten.grown, List.forall_mem_cons.mpr ⟨?_, hwritten.files⟩,
            fun location hlocation => ?_⟩
          · refine hholds.later hnext.linkFree hwritten.grown (hwritten.others _ fun other hother => ?_)
            refine placeOf_join_ne hfirst (hrest other hother) ?_ next place
            exact fun hsame => hnew (hsame ▸ List.mem_map_of_mem hother)
          · obtain ⟨hown, hothers⟩ := List.forall_mem_cons.mp hlocation
            rw [← hkept location hown]
            refine hwritten.others location fun other hother => ?_
            rw [hnext.placeOf]
            exact hothers other hother

-- The directory comes first.
theorem written_persistArtifacts {paths : List String} (hfree : tree.LinkFree)
    (hnames : ∀ artifact ∈ artifacts, steps artifact.name = [.name artifact.name])
    (hdistinct : (artifacts.map Artifact.name).Nodup)
    (h : persistArtifacts tree place artifacts device = (left, .ok paths)) :
    ∃ made, tree.GainsDirectories made ∧ Written place artifacts made left := by
  unfold persistArtifacts at h
  split at h
  · rename_i hempty
    cases h
    rw [List.isEmpty_iff.mp hempty]
    exact ⟨tree, .refl tree, .refl hfree, fun _ h => (nomatch h), fun _ _ => rfl⟩
  · split at h
    · cases h
    · rename_i made _ hmade
      have hgains := FileTree.gains_makeDirectories tree place
      rw [hmade] at hgains
      exact ⟨made, hgains, written_writeArtifacts (hgains.extends hfree).linkFree hnames hdistinct h⟩

-- What a reference in a document leads to, read from a directory.
def target? (tree : FileTree) (base : Location) (reference : String) : Option Entry :=
  match tree.walk false FileTree.maxLinks (if Path.isAbsolute reference then [] else base)
      (steps reference) with
  | .ok location => tree.entry? location
  | .error _ => none

theorem target_of_route {base : Location} {reference path name : String} {bytes : ByteArray}
    (hfree : tree.LinkFree) (hroute : Route tree base reference path name)
    (hfile : tree.Holds path bytes) : target? tree base reference = some (.file bytes) := by
  obtain ⟨lead, route, idle, hidle, hpath, hreference, hbase⟩ := hroute
  obtain ⟨hwalk, hentry⟩ := hfile
  rw [hpath] at hwalk
  have hlast := FileTree.walk_of_idle hfree hidle (List.cons_ne_nil _ _)
    (FileTree.walk_split hfree hwalk)
  simp only [target?, hbase, hreference, hlast]
  exact hentry

-- The images that stand behind a block for its artifacts, one line for each.
def imagePieces (references : List String) : List String :=
  if references.isEmpty then []
  else [String.join (references.map fun reference => "![](" ++ reference ++ ")\n")]

-- The references that are put out for a block.
def imagesOf (layout : Layout) (block : CodeBlock) (result : BlockResult) : List String :=
  if block.modifiers.showsArtifacts then result.artifacts.map layout.reference else []

theorem exists_blockPieces (layout : Layout) (block : CodeBlock) (result : BlockResult) :
    ∃ text, blockPieces layout block (some result) =
      text ++ imagePieces (imagesOf layout block result) := by
  unfold blockPieces
  dsimp only
  rw [← List.append_assoc]
  refine ⟨_, congrArg _ ?_⟩
  unfold imagePieces imagesOf
  cases hshown : block.modifiers.showsArtifacts with
  | false => rfl
  | true =>
      cases hartifacts : result.artifacts with
      | nil => rfl
      | cons name rest => simp [Function.comp_def]

-- A block that a call has run is shown with references to just what the call has declared.
structure Refers (left : FileTree) (base : Location) (layout : Layout) (call : Call)
    (entry : CodeBlock × BlockResult) : Prop where
  key : call.key = (entry.1.index, entry.1.content)
  images : ∃ text, blockPieces layout entry.1 (some entry.2) =
    text ++ imagePieces (imagesOf layout entry.1 entry.2)
  files : List.Forall₂ (fun name payload =>
      target? left base (layout.reference name) = some (.file payload.bytes))
    entry.2.artifacts call.execution.captured.artifacts

theorem forall₂_listing {stem : String} {block : Nat} {payloads : List Calc.Payload}
    {R : String → Calc.Payload → Prop} (h : ∀ artifact ∈ listing stem block payloads,
      ∀ payload, artifact.bytes = payload.bytes → R artifact.name payload) :
    List.Forall₂ R ((listing stem block payloads).map Artifact.name) payloads := by
  unfold listing at h ⊢
  generalize 1 = ordinal at h ⊢
  induction payloads generalizing ordinal with
  | nil => exact .nil
  | cons payload rest ih =>
      rw [List.zipIdx_cons, List.map_cons, List.forall_mem_cons] at h
      exact .cons (h.1 payload rfl) (ih (ordinal + 1) h.2)

-- What a successful run makes of a tree: files for its artifacts that the document refers to, and
-- the document.
structure Filed (layout : Layout) (output : Option String) (log : List Call)
    (executed : List Executed) (artifacts : List Artifact) (tree left : FileTree) : Prop where
  references : List.Forall₂ (Refers left (home tree output) layout) log (resultsOf executed)
  apart : (artifacts.map fun artifact => tree.placeOf
    (Path.join (artifactPlace output layout.artifactDirectory) artifact.name)).Nodup
  -- Each file holds all of its artifact and nothing else.
  files : ∀ artifact ∈ artifacts, left.Holds
    (Path.join (artifactPlace output layout.artifactDirectory) artifact.name) artifact.bytes
  document : ∀ path, output = some path →
    left.entry? (tree.placeOf path) = some (.file (assemble layout executed).toUTF8)
  others : ∀ location,
    (∀ artifact ∈ artifacts, location ≠ tree.placeOf
      (Path.join (artifactPlace output layout.artifactDirectory) artifact.name)) →
    (∀ path, output = some path → location ≠ tree.placeOf path) →
      left.entry? location = tree.entry? location ∨
        tree.entry? location = none ∧ left.entry? location = some .directory

theorem home_eq (h : tree.Extends left) (output : Option String) :
    home left output = home tree output := by
  cases output with
  | none => exact h.here
  | some path => rw [home, home, h.placeOf]

section Filed

variable {setup : Setup} {source : SourceOptions} {output directory : Option String}
  {expansion : Expansion} {map : SourceMap}

theorem prepare_eq_ok (h : prepare tree source directory = .ok setup) :
    setup.executor = .calc ∧ setup.settings.layout = setup.config.layout := by
  unfold prepare at h
  cases hload : source.load tree with
  | error error => simp [hload, bind, Except.bind] at h
  | ok config =>
      simp only [hload, bind, Except.bind, Config.settings, Config.executor] at h
      cases hregistry : (withArtifacts config directory).registry with
      | error error => simp [hregistry, Except.map] at h
      | ok registry =>
          simp only [hregistry, Except.map] at h
          split at h
          · cases h
          · rename_i executor hexecutor
            split at hexecutor
            · cases hexecutor
              cases h
              exact ⟨rfl, rfl⟩
            · cases hexecutor

theorem expand_eq_ok (h : setup.expand tree source = (.ok expansion, map)) :
    ∃ classified executed, setup.check tree source = (.ok classified, map) ∧
      (traceDocument setup.executor classified (.start () setup.settings.stem)).result =
        .ok executed ∧
      expansion = ⟨assemble setup.settings.layout executed,
        (traceDocument setup.executor classified
          (.start () setup.settings.stem)).after.store.artifacts⟩ := by
  unfold Setup.expand LiveDoc.expand expandFrom at h
  rw [← Setup.check] at h
  rcases hcheck : setup.check tree source with ⟨error | classified, found⟩
  · rw [hcheck] at h
    cases h
  · rw [hcheck] at h
    simp only [runClassified, (tells_document setup.executor classified _).plain] at h
    cases hresult : (traceDocument setup.executor classified
      (.start () setup.settings.stem)).result with
    | error error =>
        rw [hresult] at h
        cases h
    | ok executed =>
        rw [hresult] at h
        cases h
        exact ⟨classified, executed, rfl, hresult, rfl⟩

theorem classify_of_check {settings : Settings} {root : Root} {base language : String}
    {classified : Classified} {found : SourceMap}
    (h : (LiveDoc.check tree settings root base language).run .empty = (.ok classified, found)) :
    ∃ whole, classify settings.registry language whole = .ok classified := by
  unfold LiveDoc.check at h
  obtain ⟨document, loaded, -, h⟩ := Action.run_bind_eq_ok h
  obtain ⟨whole, resolved, -, h⟩ := Action.run_bind_eq_ok h
  have hclassify := (Action.run_liftM (classify settings.registry language whole) resolved).symm.trans h
  exact ⟨whole, congrArg Prod.fst hclassify⟩

theorem writeExpansion_eq_ok {own : String}
    (h : (writeExpansion tree device map expansion own output).code = 0) :
    ∃ written paths,
      persistArtifacts tree (artifactPlace output own) expansion.artifacts device =
        (written, .ok paths) ∧
      (∀ path, output = some path → written.replace device path expansion.markdown.toUTF8 =
        ((writeExpansion tree device map expansion own output).tree, .ok ())) ∧
      (output = none → (writeExpansion tree device map expansion own output).tree = written ∧
        (writeExpansion tree device map expansion own output).output = expansion.markdown) := by
  unfold writeExpansion Expansion.write at h ⊢
  rcases hpersist : persistArtifacts tree (artifactPlace output own) expansion.artifacts device with
    ⟨written, failed | paths⟩
  · cases output with
    | some path | none =>
        dsimp only at h
        rw [hpersist] at h
        cases h
  · refine ⟨written, paths, rfl, ?_, ?_⟩
    · rintro path rfl
      dsimp only at h ⊢
      rw [hpersist] at h ⊢
      dsimp only at h ⊢
      rcases hreplace : written.replace device path expansion.markdown.toUTF8 with
        ⟨left, failed | done⟩
      · rw [hreplace] at h
        cases h
      · rfl
    · rintro rfl
      dsimp only at h ⊢
      rw [hpersist] at h ⊢
      dsimp only at h ⊢
      unfold printDocument at h ⊢
      cases hprint : device.printed expansion.markdown with
      | none => exact ⟨rfl, rfl⟩
      | some count =>
          rw [hprint] at h
          cases h

-- The document is put next to its artifacts, if it is none of them.
theorem written_document {written left : FileTree}
    (hdistinct : ∀ path, output = some path → ∀ artifact ∈ artifacts,
      tree.placeOf path ≠ tree.placeOf (Path.join place artifact.name))
    (hmade : tree.GainsDirectories made) (hfree : tree.LinkFree)
    (hwritten : Written place artifacts made written) {markdown : String}
    (hreplace : ∀ path, output = some path →
      written.replace device path markdown.toUTF8 = (left, .ok ()))
    (hnone : output = none → left = written) :
    (∀ path, output = some path → ∃ front last, steps path = front ++ [.name last]) ∧
      tree.Extends left ∧
      (∀ artifact ∈ artifacts, left.Holds (Path.join place artifact.name) artifact.bytes) ∧
      (∀ path, output = some path →
        left.entry? (tree.placeOf path) = some (.file markdown.toUTF8)) ∧
      ∀ location,
        (∀ artifact ∈ artifacts, location ≠ tree.placeOf (Path.join place artifact.name)) →
        (∀ path, output = some path → location ≠ tree.placeOf path) →
          left.entry? location = tree.entry? location ∨
            tree.entry? location = none ∧ left.entry? location = some .directory := by
  have hextends := (hmade.extends hfree).trans hwritten.grown
  have hsame : ∀ path, written.placeOf path = tree.placeOf path := hextends.placeOf
  have hothers : ∀ location,
      (∀ artifact ∈ artifacts, location ≠ tree.placeOf (Path.join place artifact.name)) →
        written.entry? location = tree.entry? location ∨
          tree.entry? location = none ∧ written.entry? location = some .directory := by
    intro location hlocation
    rw [hwritten.others location fun artifact hartifact => by
      rw [(hmade.extends hfree).placeOf]
      exact hlocation artifact hartifact]
    exact hmade.2 location
  cases output with
  | none =>
      rw [hnone rfl]
      exact ⟨fun path hpath => (nomatch hpath), hextends, hwritten.files,
        fun path hpath => (nomatch hpath), fun location hlocation _ => hothers location hlocation⟩
  | some path =>
      obtain ⟨hsteps, hleft, hdocument, hkept⟩ :=
        FileTree.holds_replace hwritten.grown.linkFree (hreplace path rfl)
      rw [hsame] at hdocument hkept
      refine ⟨fun other hother => ?_, hextends.trans hleft, fun artifact hartifact => ?_,
        fun other hother => ?_, fun location hlocation hpath => ?_⟩
      · cases hother
        exact hsteps
      · refine (hwritten.files artifact hartifact).later hwritten.grown.linkFree hleft (hkept _ ?_)
        rw [hsame]
        exact (hdistinct path rfl artifact hartifact).symm
      · cases hother
        exact hdocument
      · rw [hkept location (hpath path rfl)]
        exact hothers location hlocation

theorem refers_of_gives {layout : Layout} {left : FileTree} {stem : String} {call : Call}
    {entry : CodeBlock × BlockResult} (hgives : call.Gives stem entry)
    (hfiles : ∀ artifact ∈ call.artifacts stem,
      target? left (home tree output) (layout.reference artifact.name) =
        some (.file artifact.bytes)) :
    Refers left (home tree output) layout call entry := by
  refine ⟨hgives.key, exists_blockPieces layout entry.1 entry.2, ?_⟩
  rw [artifacts_of_success hgives.succeeded] at hfiles
  rw [hgives.names, artifacts_of_success hgives.succeeded]
  refine forall₂_listing fun artifact hartifact payload hbytes => ?_
  rw [hfiles artifact hartifact, hbytes]

theorem results_traceDocument {σ : Type} {executor : Executor σ} {classified : Classified}
    {host : σ} {stem : String} {executed : List Executed}
    (h : (traceDocument executor classified (.start host stem)).result = .ok executed) :
    List.Forall₂ (Call.Gives stem)
      (callsOf (traceDocument executor classified (.start host stem)).events)
      (resultsOf executed) := by
  by_cases hlanguage : classified.language = executor.language
  · rw [traceDocument_of_language hlanguage] at h ⊢
    exact results_tree executor h
  · rw [traceDocument, if_neg hlanguage] at h
    cases h

end Filed

-- Every expansion that succeeds in a tree without links: the files for what its blocks have
-- declared are where the references of the document lead to, each artifact has a file of its own,
-- and besides the document nothing else has changed.
theorem filed_of_run {arguments : List String} {source : SourceOptions}
    {output directory : Option String} {color : Bool}
    (hparse : parse arguments = .ok ⟨.expand source output directory, color⟩)
    (hfree : tree.LinkFree) {scratch : String} {device : Device}
    (hdone : (run tree scratch arguments device).code = 0) :
    ∃ (setup : Setup) (classified : Classified) (map : SourceMap) (executed : List Executed)
      (after : Progress Unit) (log : List Call),
      prepare tree source directory = .ok setup ∧
      setup.check tree source = (.ok classified, map) ∧
      (runDocument setup.executor.logged classified).run
        ((Progress.start () setup.settings.stem).withLog []) = (.ok executed, after.withLog log) ∧
      (output = none →
        (run tree scratch arguments device).output = assemble setup.settings.layout executed) ∧
      ('/' ∉ setup.settings.stem.toList → NotSlashes setup.settings.layout.artifactDirectory →
        (∀ path, output = some path → ∀ artifact ∈ after.store.artifacts,
          tree.placeOf path ≠ tree.placeOf (Path.join
            (artifactPlace output setup.settings.layout.artifactDirectory) artifact.name)) →
        Filed setup.settings.layout output log executed after.store.artifacts tree
          (run tree scratch arguments device).tree) := by
  rw [run_eq_runExpand scratch device hparse, runExpand_eq] at hdone ⊢
  cases hprepare : prepare tree source directory with
  | error error =>
      rw [hprepare] at hdone
      cases hdone
  | ok setup =>
      obtain ⟨hcalc, hlayout⟩ := prepare_eq_ok hprepare
      rw [hprepare] at hdone
      dsimp only at hdone ⊢
      rcases hexpand : setup.expand tree source with ⟨error | expansion, map⟩
      · rw [hexpand] at hdone
        cases hdone
      · rw [hexpand] at hdone
        dsimp only at hdone ⊢
        obtain ⟨written, paths, hpersist, hreplace, hprint⟩ := writeExpansion_eq_ok hdone
        obtain ⟨classified, executed, hcheck, hresult, rfl⟩ := expand_eq_ok hexpand
        have htells := (tells_document setup.executor classified
          (.start () setup.settings.stem)).logged []
        rw [hresult, List.nil_append] at htells
        refine ⟨setup, classified, map, executed, _, _, rfl, hcheck, htells,
          fun hnone => (hprint hnone).2, fun hstem hdirectory happart => ?_⟩
        rw [← hlayout] at hpersist hreplace hprint ⊢
        obtain ⟨whole, hclassify⟩ := classify_of_check hcheck
        have hdistinct := (bookkeeping_of_trace setup.executor hclassify () setup.settings.stem).distinct
        have hnames : ∀ artifact ∈ (traceDocument setup.executor classified
            (.start () setup.settings.stem)).after.store.artifacts,
              steps artifact.name = [.name artifact.name] := by
          rw [hcalc]
          exact steps_name_of_calc hstem
        obtain ⟨made, hmade, hwritten⟩ := written_persistArtifacts hfree hnames hdistinct hpersist
        obtain ⟨hsteps, hleft, hfiles, hdocument, hothers⟩ :=
          written_document happart hmade hfree hwritten hreplace fun hnone => (hprint hnone).1
        refine ⟨?_, ?_, hfiles, hdocument, hothers⟩
        · refine ((List.forall₂_and_left _ _).mpr ⟨fun call hcall artifact hartifact => ?_,
            results_traceDocument hresult⟩).imp fun call entry h => refers_of_gives h.2 h.1
          have hmem : artifact ∈ (traceDocument setup.executor classified
              (.start () setup.settings.stem)).after.store.artifacts := by
            rw [artifacts_traceDocument]
            exact List.mem_flatMap.mpr ⟨call, hcall, hartifact⟩
          rw [← home_eq hleft]
          exact target_of_route hleft.linkFree
            (route_reference _ hdirectory hsteps (hnames artifact hmem)) (hfiles artifact hmem)
        · refine List.pairwise_map.mpr ((List.pairwise_map.mp hdistinct).imp_of_mem ?_)
          intro artifact other hartifact hother hne
          exact placeOf_join_ne (hnames artifact hartifact) (hnames other hother) hne tree _

def savingCall : Call :=
  ⟨"save(\"TXT\", true)\n", Calc.Session.empty.enter 0, ⟨⟨"", [⟨"txt", saved.bytes⟩]⟩, none⟩,
    Calc.Session.empty.enter 0⟩

theorem run_saving_logged :
    (runDocument Executor.calc.logged ⟨saving, "calc"⟩).run
      ((Progress.start () "block").withLog []) =
        (.ok [.block savingBlock (some ⟨"", ["block-000-1.txt"]⟩)],
          Progress.withLog ⟨(), Calc.Session.empty.enter 0, ⟨"block", [saved]⟩, [.succeeded]⟩
            [savingCall]) := by
  cbv

theorem replace_persisted (bytes : ByteArray) :
    persisted.replace .sound "p" bytes = (persisted.set ["p"] (.file bytes), .ok ()) := by
  have haccepted : FileTree.accepted "/./.tmp000000" =
      .ok ([.stay, .stay] ++ [.name ".tmp000000"]) := by
    have hcut : "/./.tmp000000" = "" ++ "/" ++ ("." ++ "/" ++ ".tmp000000") := by decide
    rw [FileTree.accepted_of_short (by decide) (by decide) (by decide),
      hcut, steps_append_slash, steps_append_slash, steps_empty, steps_dot,
      steps_of_component (by decide) (by decide) (by decide) (by decide)]
    rfl
  have hvacant : ∀ tries, persisted.vacant .sound "." (tries + 1) 0 = .ok [".tmp000000"] := by
    intro tries
    have hpath : Path.join (Location.text persisted.here)
        (Path.join "." (".tmp" ++ Device.sound.fresh 0)) = "/./.tmp000000" := by cbv
    have hroot : persisted.origin "/./.tmp000000" = [] := by cbv
    have hslot : persisted.slot "/./.tmp000000" = .ok [".tmp000000"] := by
      have hplace : persisted.isDirectoryAt (persisted.origin "/./.tmp000000") = true := by
        rw [hroot]
        rfl
      rw [FileTree.slot_of_idle haccepted (by simp [Idle]) hplace (by decide), hroot]
    unfold FileTree.vacant
    dsimp only
    rw [hpath, FileTree.free_of_slot hslot rfl]
  have hslot : (persisted.set [".tmp000000"] (.file bytes)).slot "p" = .ok ["p"] := by
    have hchecked : FileTree.accepted "p" = .ok ([] ++ [.name "p"]) :=
      FileTree.accepted_of_checked (FileTree.checked_of_component (by decide) (by decide)
        (by decide) (by decide) (by decide)) (by decide)
    have hroot : (persisted.set [".tmp000000"] (.file bytes)).origin "p" = [] := by
      have hrelative : Path.isAbsolute "p" = false := by cbv
      rw [FileTree.origin, hrelative]
      rfl
    have hplace : (persisted.set [".tmp000000"] (.file bytes)).isDirectoryAt
        ((persisted.set [".tmp000000"] (.file bytes)).origin "p") = true := by
      rw [hroot]
      rfl
    rw [FileTree.slot_of_idle hchecked (by simp [Idle]) hplace (by decide), hroot]
  have hrename : (persisted.set [".tmp000000"] (.file bytes)).rename [".tmp000000"] "p" =
      .ok (persisted.set ["p"] (.file bytes)) := by
    rw [FileTree.rename, hslot]
    rfl
  have hdirectory : Path.directory "p" = "." := by cbv
  unfold FileTree.replace
  dsimp only
  rw [hdirectory, show FileTree.maxTries = 65535 + 1 from rfl, hvacant]
  dsimp only
  rw [FileTree.fill]
  dsimp only [Device.sound]
  rw [FileTree.set_set, hrename]

theorem code_project : (run project "" ["expand", "d", "-o", "p"]).code = 0 := by
  have hparse : parse ["expand", "d", "-o", "p"] =
      .ok ⟨.expand projectSource (some "p") none, true⟩ := by
    cbv
  have hplace : artifactPlace (some "p") projectSetup.config.layout.artifactDirectory =
      "./artifacts" := by
    cbv
  have hpersist : persistArtifacts project "./artifacts" projectExpansion.artifacts =
      (persisted, .ok ["./artifacts/block-000-1.txt"]) := persist_project
  rw [run_eq_runExpand "" .sound hparse, runExpand_eq, prepare_project]
  dsimp only
  rw [expand_project]
  simp only [writeExpansion, Expansion.write, hplace, hpersist, replace_persisted]

theorem filed_beside_document : (run project "" ["expand", "d", "-o", "p"]).code = 0 ∧
    Filed Settings.standard.layout (some "p") [savingCall]
      [.block savingBlock (some ⟨"", ["block-000-1.txt"]⟩)] [saved] project
      (run project "" ["expand", "d", "-o", "p"]).tree := by
  have hparse : parse ["expand", "d", "-o", "p"] =
      .ok ⟨.expand projectSource (some "p") none, true⟩ := by
    cbv
  obtain ⟨setup, classified, map, executed, after, log, hprepare, hcheck, hrun, -, hfiled⟩ :=
    filed_of_run hparse linkFree_project code_project
  rw [prepare_project] at hprepare
  cases hprepare
  rw [check_project] at hcheck
  cases hcheck
  have hsame := run_saving_logged.symm.trans hrun
  have hexecuted := Except.ok.inj (congrArg Prod.fst hsame)
  have hlog : [savingCall] = log := congrArg (fun own => own.2.host.2) hsame
  have hartifacts : [saved] = after.store.artifacts :=
    congrArg (fun own => own.2.store.artifacts) hsame
  rw [← hlog, ← hartifacts, ← hexecuted] at hfiled
  refine ⟨code_project, hfiled (by decide) (.inr ⟨'a', by decide, by decide⟩) ?_⟩
  intro path hpath artifact hartifact hplace
  cases hpath
  cases List.mem_singleton.mp hartifact
  have hdocument : steps "p" = [.name "p"] :=
    steps_of_component (by decide) (by decide) (by decide) (by decide)
  have hname : steps saved.name = [.name saved.name] :=
    steps_of_component (by decide) (by decide) (by decide) (by decide)
  obtain ⟨above, hjoin⟩ := placeOf_join hname project
    (artifactPlace (some "p") projectSetup.settings.layout.artifactDirectory)
  rw [hjoin, FileTree.placeOf, hdocument] at hplace
  exact absurd (List.cons.inj hplace).1 (by decide)

end LiveDoc.Command
