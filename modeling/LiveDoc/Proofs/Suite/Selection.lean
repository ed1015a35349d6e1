import LiveDoc.Proofs.Suite.Discovery

namespace LiveDoc

theorem Path.pieces_prefix_iff {name path : String} : pieces name <+: pieces path ↔
    path = name ∨ ∃ back, path = name ++ "/" ++ back := by
  constructor
  · rintro ⟨more, hmore⟩
    rw [← joined_pieces path, ← hmore]
    cases more with
    | nil => exact .inl (by rw [List.append_nil, joined_pieces])
    | cons first more =>
        refine .inr ⟨Text.joined "/" (first :: more), ?_⟩
        rw [joined_append (pieces_ne_nil name) (List.cons_ne_nil _ _), joined_pieces]
  · rintro (rfl | ⟨back, rfl⟩)
    · exact List.prefix_refl _
    · rw [pieces_append_slash]
      exact List.prefix_append _ _

namespace NameTable

variable {α : Type} {all table : NameTable α} {entry : String × α}

-- An entry of a table that is put into another one which has no other entries than it.
theorem mem_put_of_subset (hall : all.Ascending) (htable : table.Ascending) (hsub : table ⊆ all)
    {own : String × α} (hown : own ∈ all) :
    entry ∈ put own.1 own.2 table ↔ entry = own ∨ entry ∈ table := by
  rw [htable.mem_put]
  constructor
  · exact fun h => h.imp id And.right
  · rintro (h | h)
    · exact .inl h
    · by_cases hname : entry.1 = own.1
      · have hvalue := hall.find?_eq_some_iff.mpr (hsub h)
        rw [hname, hall.find?_eq_some_iff.mpr hown, Option.some.injEq] at hvalue
        exact .inl (Prod.ext hname hvalue.symm)
      · exact .inr ⟨hname, h⟩

def pick (p : String → Bool) (more table : NameTable α) : NameTable α :=
  more.foldl (fun table entry => if p entry.1 then put entry.1 entry.2 table else table) table

theorem Ascending.pick (hall : all.Ascending) (p : String → Bool) {more : NameTable α}
    (hmore : more ⊆ all) (htable : table.Ascending) (hsub : table ⊆ all) :
    (pick p more table).Ascending ∧
      ∀ entry, entry ∈ pick p more table ↔ entry ∈ table ∨ entry ∈ more ∧ p entry.1 = true := by
  induction more generalizing table with
  | nil => exact ⟨htable, fun entry => by simp [NameTable.pick]⟩
  | cons first rest ih =>
      obtain ⟨hfirst, hrest⟩ := List.cons_subset.mp hmore
      rw [NameTable.pick, List.foldl_cons]
      by_cases hp : p first.1 = true
      · rw [if_pos hp]
        have hput : ∀ entry, entry ∈ NameTable.put first.1 first.2 table ↔
            entry = first ∨ entry ∈ table := fun _ => mem_put_of_subset hall htable hsub hfirst
        have hsame : NameTable.put first.1 first.2 table ⊆ all := fun entry hentry =>
          ((hput entry).mp hentry).elim (fun heq => heq ▸ hfirst) fun hold => hsub hold
        obtain ⟨hascending, hmem⟩ := ih hrest (htable.put _ _) hsame
        refine ⟨hascending, fun entry => (hmem entry).trans ?_⟩
        rw [hput, List.mem_cons]
        constructor
        · rintro ((rfl | h) | h)
          · exact .inr ⟨.inl rfl, hp⟩
          · exact .inl h
          · exact .inr ⟨.inr h.1, h.2⟩
        · rintro (h | ⟨rfl | h, hown⟩)
          · exact .inl (.inr h)
          · exact .inl (.inl rfl)
          · exact .inr ⟨h, hown⟩
      · rw [if_neg hp]
        obtain ⟨hascending, hmem⟩ := ih hrest htable hsub
        refine ⟨hascending, fun entry => (hmem entry).trans (or_congr Iff.rfl ?_)⟩
        rw [List.mem_cons]
        constructor
        · exact fun h => ⟨.inr h.1, h.2⟩
        · rintro ⟨rfl | h, hown⟩
          · exact (hp hown).elim
          · exact ⟨h, hown⟩

end NameTable

namespace Suite

-- A category is asked for if it is one of the requested, or lies below one. Without a request, all are.
def Requested (requested : List String) (category : String) : Prop :=
  requested = [] ∨
    ∃ request ∈ requested, Path.pieces (trimSlashes request) <+: Path.pieces category

section Select

variable {all : NameTable (List String)} {requested : List String} {category name : String}

theorem belongs_iff : belongs name category = true ↔ Path.pieces name <+: Path.pieces category := by
  rw [Path.pieces_prefix_iff, belongs, Bool.or_eq_true, beq_iff_eq, String.startsWith_string_iff]
  refine or_congr Iff.rfl ⟨?_, ?_⟩
  · rintro ⟨back, hback⟩
    exact ⟨String.ofList back, String.toList_injective (by simpa using hback.symm)⟩
  · rintro ⟨back, rfl⟩
    exact ⟨back.toList, by simp⟩

-- What requests add to the categories that are chosen already.
theorem mem_foldl_pick (requested : List String) (hall : all.Ascending) {chosen : NameTable (List String)}
    (hchosen : chosen.Ascending) (hsub : chosen ⊆ all) :
    (requested.foldl (fun chosen request => NameTable.pick (belongs (trimSlashes request)) all chosen)
        chosen).Ascending ∧
      ∀ entry, entry ∈ requested.foldl
          (fun chosen request => NameTable.pick (belongs (trimSlashes request)) all chosen) chosen ↔
        entry ∈ chosen ∨ entry ∈ all ∧
          ∃ request ∈ requested, belongs (trimSlashes request) entry.1 = true := by
  induction requested generalizing chosen with
  | nil => exact ⟨hchosen, fun entry => by simp⟩
  | cons first rest ih =>
      obtain ⟨hascending, hmem⟩ :=
        hall.pick (belongs (trimSlashes first)) (List.Subset.refl all) hchosen hsub
      have hsame : NameTable.pick (belongs (trimSlashes first)) all chosen ⊆ all :=
        fun entry hentry => ((hmem entry).mp hentry).elim (fun hold => hsub hold) And.left
      obtain ⟨hrest, hlater⟩ := ih hascending hsame
      refine ⟨hrest, fun entry => (hlater entry).trans ?_⟩
      rw [hmem, List.exists_mem_cons_iff, or_assoc, and_or_left]

theorem select_fst_eq (hne : requested ≠ []) : (select all requested).1 =
    requested.foldl (fun chosen request => NameTable.pick (belongs (trimSlashes request)) all chosen)
      [] := by
  have hsome : requested.isEmpty = false := by simpa using hne
  rw [select, hsome]
  refine (List.foldl_hom Prod.fst fun state request => ?_).symm
  dsimp only
  split <;> rfl

-- What is chosen are the categories that are asked for, as they are.
theorem select_spec (hall : all.Ascending) (requested : List String) :
    (select all requested).1.Ascending ∧
      ∀ entry, entry ∈ (select all requested).1 ↔ entry ∈ all ∧ Requested requested entry.1 := by
  by_cases hne : requested = []
  · subst hne
    exact ⟨hall, fun entry => (and_iff_left (.inl rfl)).symm⟩
  · rw [select_fst_eq hne]
    obtain ⟨hascending, hmem⟩ := mem_foldl_pick requested hall .nil (by simp)
    refine ⟨hascending, fun entry => (hmem entry).trans ?_⟩
    simp only [List.not_mem_nil, false_or, Requested, hne, belongs_iff]

end Select

-- The groups in which the tests of a suite are run, each test once in each of its ways.
structure Selects (tree : FileTree) (root : String) (requested : List String)
    (groups : List (String × List Way)) : Prop where
  ascending : groups.Pairwise (·.1 < ·.1)
  filled : ∀ group ∈ groups, group.2 ≠ []
  own : ∀ group ∈ groups, ∀ way ∈ group.2, way.category = group.1
  ordered : ∀ group ∈ groups, group.2.Pairwise (·.names < ·.names)
  once : ((groups.flatMap (·.2)).map (Way.path root)).Nodup
  complete : ∀ way, way ∈ groups.flatMap (·.2) ↔
    IsTest tree root way ∧ Requested requested way.category

-- The ways in the chosen categories.
def groupsOf (tree : FileTree) (root : String) (chosen : NameTable (List String)) :
    List (String × List Way) :=
  chosen.map fun entry => (entry.1, (found tree root).filter (·.category = entry.1))

section Groups

variable {tree : FileTree} {root : String} {requested : List String}

theorem mem_groupsOf_iff {chosen : NameTable (List String)} {way : Way} :
    way ∈ (groupsOf tree root chosen).flatMap (·.2) ↔
      way ∈ found tree root ∧ ∃ entry ∈ chosen, way.category = entry.1 := by
  simp only [groupsOf, List.flatMap_map, List.mem_flatMap, List.mem_filter, decide_eq_true_eq]
  constructor
  · rintro ⟨entry, hentry, hway, hcategory⟩
    exact ⟨hway, entry, hentry, hcategory⟩
  · rintro ⟨hway, entry, hentry, hcategory⟩
    exact ⟨entry, hentry, hway, hcategory⟩

theorem nodup_groupsOf {chosen : NameTable (List String)}
    (h : chosen.Ascending) : ((groupsOf tree root chosen).flatMap (·.2)).Nodup := by
  have hfound : (found tree root).Nodup := by
    refine List.Pairwise.imp (fun {way later} hlt => ?_) (found_ascending tree root)
    rintro rfl
    exact lt_irrefl way.names hlt
  rw [groupsOf, List.flatMap_map, List.nodup_flatMap]
  refine ⟨fun entry _ => hfound.filter _, h.imp fun {entry later} hlt way hway hlater => ?_⟩
  have hentry := of_decide_eq_true (List.mem_filter.mp hway).2
  have hother := of_decide_eq_true (List.mem_filter.mp hlater).2
  exact hlt.ne (hentry.symm.trans hother)

theorem selects_groupsOf (hnamed : tree.Named) (root : String) (requested : List String) :
    Selects tree root requested
      (groupsOf tree root (select (discover tree root) requested).1) := by
  have hgathers := discover_gathers root hnamed
  obtain ⟨hascending, hmem⟩ := select_spec hgathers.ascending requested
  have hchosen : ∀ way, way ∈ (groupsOf tree root
      (select (discover tree root) requested).1).flatMap (·.2) ↔
        IsTest tree root way ∧ Requested requested way.category := by
    intro way
    rw [mem_groupsOf_iff, mem_found_iff hnamed]
    refine and_congr_right fun htest => ⟨?_, fun hrequested => ?_⟩
    · rintro ⟨entry, hentry, hcategory⟩
      exact hcategory ▸ ((hmem entry).mp hentry).2
    · have hentry := hgathers.mem_of_mem ((mem_found_iff hnamed).mpr htest)
      exact ⟨_, (hmem _).mpr ⟨hentry, hrequested⟩, rfl⟩
  refine ⟨?_, ?_, ?_, ?_, ?_, hchosen⟩
  · exact List.pairwise_map.mpr hascending
  · intro group hgroup
    obtain ⟨entry, hentry, rfl⟩ := List.mem_map.mp hgroup
    obtain ⟨hne, hfiles⟩ := (hgathers.mem entry.1 entry.2).mp ((hmem entry).mp hentry).1
    rw [hfiles] at hne
    exact mt List.map_eq_nil_iff.mpr hne
  · intro group hgroup way hway
    obtain ⟨entry, hentry, rfl⟩ := List.mem_map.mp hgroup
    exact of_decide_eq_true (List.mem_filter.mp hway).2
  · intro group hgroup
    obtain ⟨entry, hentry, rfl⟩ := List.mem_map.mp hgroup
    exact (found_ascending tree root).filter _
  · refine List.Nodup.map_on (fun way hway other hother heq => ?_) (nodup_groupsOf hascending)
    have htest := ((hchosen way).mp hway).1
    exact Way.path_inj (ne_empty_of_isDirectory htest.start) htest.names
      ((hchosen other).mp hother).1.names heq

-- What is run are the paths of the groups.
theorem results_eq (hnamed : tree.Named) (scratch : String) :
    (select (discover tree root) requested).1.map
        (fun (category, files) => (category, files.map (verdict tree scratch))) =
      (groupsOf tree root (select (discover tree root) requested).1).map fun group =>
        (group.1, group.2.map fun way => verdict tree scratch (way.path root)) := by
  have hgathers := discover_gathers root hnamed
  obtain ⟨-, hmem⟩ := select_spec hgathers.ascending requested
  rw [groupsOf, List.map_map]
  refine List.map_congr_left fun entry hentry => ?_
  obtain ⟨-, hfiles⟩ := (hgathers.mem entry.1 entry.2).mp ((hmem entry).mp hentry).1
  dsimp only [Function.comp]
  rw [hfiles, List.map_map]
  rfl

theorem discover_eq_nil_iff (hnamed : tree.Named) :
    discover tree root = [] ↔ ∀ way, ¬IsTest tree root way := by
  have hgathers := discover_gathers root hnamed
  constructor
  · intro hnil way htest
    have hentry := hgathers.mem_of_mem ((mem_found_iff hnamed).mpr htest)
    rw [hnil] at hentry
    cases hentry
  · intro hnone
    have hempty : found tree root = [] :=
      List.eq_nil_iff_forall_not_mem.mpr fun way hway => hnone way ((mem_found_iff hnamed).mp hway)
    refine List.eq_nil_iff_forall_not_mem.mpr fun entry hentry => ?_
    obtain ⟨hne, hfiles⟩ := (hgathers.mem entry.1 entry.2).mp hentry
    rw [hempty] at hfiles
    exact hne hfiles

end Groups

-- A run below a folder tests every way to a test of the requested categories once, category by category
-- and by its names within one. The folders on the ways come to an end, whatever the links are.
theorem run_tests_each_way_once (tree : FileTree) (scratch root : String) (color : Bool)
    (requested : List String) (hnamed : tree.Named) (hfolder : tree.isFile root = false) :
    (∃ groups, Selects tree root requested groups ∧
      run tree scratch root color requested =
        if discover tree root = [] then ⟨[noTests root], false⟩
        else if groups = [] then
          ⟨(select (discover tree root) requested).2 ++ ["no matching categories found"], false⟩
        else
          let report := reportOn color false (groups.map fun group =>
            (group.1, group.2.map fun way => verdict tree scratch (way.path root)))
          { report with lines := (select (discover tree root) requested).2 ++ report.lines }) ∧
    (discover tree root = [] ↔ ∀ way, ¬IsTest tree root way) ∧
    ∀ folders, (∀ name ∈ folders, IsEntryName name) → tree.isDirectory root = true →
      tree.isDirectory (pathOf root folders) = true →
        folders.length < (FileTree.maxLinks + 1) * (tree.height + 1) := by
  refine ⟨⟨_, selects_groupsOf hnamed root requested, ?_⟩, discover_eq_nil_iff hnamed, ?_⟩
  · rw [run, hfolder]
    simp only [Bool.false_eq_true, if_false, List.isEmpty_iff, results_eq hnamed, groupsOf,
      List.map_eq_nil_iff]
  · exact fun folders hfolders hstart h =>
      length_lt_of_isDirectory (ne_empty_of_isDirectory hstart) hfolders h

-- A test beside a link to the folder that it lies in.
def loopTree : FileTree := ⟨[(["a.test.md"], .file "".toUTF8), (["loop"], .link ".")], []⟩

section Loop

theorem isEntryName_loop : ∀ name ∈ ["loop", "a.test.md"], IsEntryName name := by
  refine List.forall_mem_cons.mpr ⟨?_, List.forall_mem_singleton.mpr ?_⟩ <;>
    constructor <;> decide

theorem loopTree_named : loopTree.Named :=
  List.forall_mem_cons.mpr ⟨fun name hname => isEntryName_loop name (by simp_all),
    List.forall_mem_singleton.mpr fun name hname => isEntryName_loop name (by simp_all)⟩

theorem loopTree_start : loopTree.Reaches "." 40 [] := FileTree.reaches_dot (by decide)

theorem loopTree_folder : loopTree.Reaches (pathOf "." ["loop"]) 39 [] := by
  refine (reaches_join_iff (by decide) (isEntryName_loop "loop" (by simp))).mpr
    ⟨by cbv, 40, [], loopTree_start, .follow (by decide) (by decide) rfl ?_⟩
  rw [steps_dot, ite_self]
  exact .stay (by decide) .done

theorem loopTree_test (links : Nat) :
    loopTree.Leads links [] [.name "a.test.md"] links ["a.test.md"] :=
  .enter (by decide) (by decide) rfl (fun _ h => nomatch h) .done

theorem isTest_loopTree :
    IsTest loopTree "." ⟨[], "a.test.md"⟩ ∧ IsTest loopTree "." ⟨["loop"], "a.test.md"⟩ := by
  have hstart : loopTree.isDirectory "." = true := loopTree_start.isDirectory_eq
  have hname := isEntryName_loop "a.test.md" (by simp)
  have hsuffix : "a.test.md".endsWith testSuffix = true := by cbv
  exact ⟨isTest_of_reaches (List.forall_mem_singleton.mpr hname) hstart (by cbv) loopTree_start
      (loopTree_test 40) (by decide) hsuffix,
    isTest_of_reaches isEntryName_loop hstart (by cbv) loopTree_folder (loopTree_test 39)
      (by decide) hsuffix⟩

end Loop

-- The folder below the link is asked for twice. Its test is run, and the one beside the link is not.
theorem loop_is_tested_once :
    loopTree.Named ∧ loopTree.isFile "." = false ∧
    ∃ groups, Selects loopTree "." ["loop/", "loop"] groups ∧
      ⟨["loop"], "a.test.md"⟩ ∈ groups.flatMap (·.2) ∧ ⟨[], "a.test.md"⟩ ∉ groups.flatMap (·.2) ∧
      run loopTree "/scratch" "." false ["loop/", "loop"] =
        let report := reportOn false false (groups.map fun group =>
          (group.1, group.2.map fun way => verdict loopTree "/scratch" (way.path ".")))
        { report with
          lines := (select (discover loopTree ".") ["loop/", "loop"]).2 ++ report.lines } := by
  have hfolder : loopTree.isFile "." = false := by
    rw [FileTree.isFile, FileTree.find?, FileTree.seek_eq_ok_iff.mpr ⟨40, loopTree_start⟩]
    rfl
  obtain ⟨⟨groups, hselects, hrun⟩, hnone, -⟩ := run_tests_each_way_once loopTree "/scratch" "." false
    ["loop/", "loop"] loopTree_named hfolder
  have hwanted : Requested ["loop/", "loop"] (Way.category ⟨["loop"], "a.test.md"⟩) :=
    .inr ⟨"loop", by simp, Path.pieces_prefix_iff.mpr (.inl (by decide))⟩
  have hother : ¬Requested ["loop/", "loop"] (Way.category ⟨[], "a.test.md"⟩) := by
    have hname : ∀ request ∈ ["loop/", "loop"], trimSlashes request = "loop" := by decide
    rintro (h | ⟨request, hrequest, hprefix⟩)
    · cases h
    · rw [hname request hrequest, Path.pieces_prefix_iff] at hprefix
      rcases hprefix with h | ⟨back, h⟩
      · exact absurd h (by decide)
      · have hempty : Way.category ⟨[], "a.test.md"⟩ = "" := by decide
        rw [hempty] at h
        exact absurd h.symm (by simp)
  have hin := (hselects.complete _).mpr ⟨isTest_loopTree.2, hwanted⟩
  have hsome : groups ≠ [] := by
    rintro rfl
    cases hin
  have hfound : discover loopTree "." ≠ [] := fun h => hnone.mp h _ isTest_loopTree.1
  refine ⟨loopTree_named, hfolder, groups, hselects, hin, fun h => hother ?_, ?_⟩
  · exact ((hselects.complete _).mp h).2
  · rw [hrun, if_neg hfound, if_neg hsome]

-- No category has a backslash, so that none in a request is ever found.
theorem backslash_not_mem_category (way : Way) : '\\' ∉ way.category.toList := by
  rw [Way.category, forwardSlashes, String.toList_ofList, List.mem_map]
  rintro ⟨c, -, hc⟩
  split at hc
  · cases hc
  · exact absurd hc ‹_›

theorem select_backslash {tree : FileTree} (hnamed : tree.Named) (root : String) {request : String}
    (h : '\\' ∈ (trimSlashes request).toList) : (select (discover tree root) [request]).1 = [] := by
  have hgathers := discover_gathers root hnamed
  refine List.eq_nil_iff_forall_not_mem.mpr fun entry hentry => ?_
  obtain ⟨hall, hrequested⟩ := ((select_spec hgathers.ascending [request]).2 entry).mp hentry
  obtain ⟨hne, hfiles⟩ := (hgathers.mem entry.1 entry.2).mp hall
  rw [hfiles] at hne
  obtain ⟨way, hway⟩ := List.exists_mem_of_ne_nil _ (mt List.map_eq_nil_iff.mpr hne)
  have hcategory := of_decide_eq_true (List.mem_filter.mp hway).2
  rcases hrequested with hnil | ⟨own, hown, hprefix⟩
  · cases hnil
  · rw [List.mem_singleton.mp hown, ← hcategory, Path.pieces_prefix_iff] at hprefix
    refine backslash_not_mem_category way ?_
    rcases hprefix with heq | ⟨back, heq⟩ <;> rw [heq]
    · exact h
    · simp [h]

-- A test in a folder with a backslash in its name.
def slashTree : FileTree := ⟨[(["x.test.md", "a\\b"], .file "".toUTF8)], []⟩

-- A link with the name of a test that leads nowhere.
def danglingTree : FileTree := ⟨[(["x.test.md"], .link "y")], []⟩

theorem slashTree_named : slashTree.Named := by
  refine List.forall_mem_singleton.mpr (List.forall_mem_cons.mpr
    ⟨?_, List.forall_mem_singleton.mpr ?_⟩) <;> constructor <;> decide

theorem isTest_slashTree : IsTest slashTree "." ⟨["a\\b"], "x.test.md"⟩ := by
  have hstart : slashTree.Reaches "." 40 [] := FileTree.reaches_dot (by decide)
  have hnames := slashTree_named _ (List.mem_singleton.mpr rfl)
  have hfolder : slashTree.Reaches (pathOf "." ["a\\b"]) 40 ["a\\b"] :=
    (reaches_join_iff (by decide) (hnames "a\\b" (by simp))).mpr ⟨by cbv, 40, [], hstart,
      .enter (by decide) (by decide) rfl (fun _ h => by cases h) .done⟩
  refine isTest_of_reaches (fun name hname => hnames name ?_) hstart.isDirectory_eq (by cbv) hfolder
    (.enter (by decide) (by decide) rfl (fun _ h => by cases h) .done)
    (by cbv) (by cbv)
  simpa [Way.names, or_comm] using hname

theorem isEntryName_dangling : IsEntryName "x.test.md" := by constructor <;> decide

theorem seek_danglingTree : danglingTree.seek "./x.test.md" = .error .notFound := by
  have hjoin : steps (Path.join "." "x.test.md") = steps "." ++ [.name "x.test.md"] :=
    steps_join (by cbv) (by cbv) isEntryName_dangling
  have hpath : Path.join "." "x.test.md" = "./x.test.md" := by cbv
  have horigin : danglingTree.origin "./x.test.md" = [] := by cbv
  rw [hpath, steps_dot] at hjoin
  rw [FileTree.seek, FileTree.accepted_of_short (by decide) (by decide) (by decide), hjoin,
    horigin]
  cbv

theorem isTest_danglingTree : IsTest danglingTree "." ⟨[], "x.test.md"⟩ := by
  have hstart : danglingTree.Reaches "." 40 [] := FileTree.reaches_dot (by decide)
  have hpath : Way.path "." ⟨[], "x.test.md"⟩ = "./x.test.md" := by cbv
  refine ⟨List.forall_mem_singleton.mpr isEntryName_dangling, hstart.isDirectory_eq,
    hstart.isDirectory_eq, ⟨[], FileTree.seek_eq_ok_iff.mpr ⟨40, hstart⟩, by decide⟩, ?_,
    by cbv⟩
  rw [hpath, FileTree.isDirectory, FileTree.find?, seek_danglingTree]
  rfl

-- The one test of a suite is run twice, once by each way. A folder cannot be asked for by its name, and
-- what is run need not be a file.
theorem ways_are_tested_and_not_files :
    (∃ first ∈ (select (discover loopTree ".") []).1, ∃ second ∈ (select (discover loopTree ".") []).1,
      "./a.test.md" ∈ first.2 ∧ "./loop/a.test.md" ∈ second.2 ∧
      loopTree.seek "./a.test.md" = .ok ["a.test.md"] ∧
      loopTree.seek "./loop/a.test.md" = .ok ["a.test.md"]) ∧
    (IsTest slashTree "." ⟨["a\\b"], "x.test.md"⟩ ∧
      (select (discover slashTree ".") ["a\\b"]).1 = []) ∧
    IsTest danglingTree "." ⟨[], "x.test.md"⟩ ∧
      danglingTree.seek "./x.test.md" = .error .notFound := by
  refine ⟨?_, ⟨isTest_slashTree, select_backslash slashTree_named "." (by decide)⟩,
    isTest_danglingTree, seek_danglingTree⟩
  have hgathers := discover_gathers "." loopTree_named
  obtain ⟨hbeside, hbelow⟩ := isTest_loopTree
  have hfirst := (mem_found_iff loopTree_named).mpr hbeside
  have hsecond := (mem_found_iff loopTree_named).mpr hbelow
  have hpath : Way.path "." ⟨[], "a.test.md"⟩ = "./a.test.md" := by cbv
  have hlinked : Way.path "." ⟨["loop"], "a.test.md"⟩ = "./loop/a.test.md" := by cbv
  refine ⟨_, hgathers.mem_of_mem hfirst, _, hgathers.mem_of_mem hsecond,
    List.mem_map.mpr ⟨_, List.mem_filter.mpr ⟨hfirst, by simp⟩, hpath⟩,
    List.mem_map.mpr ⟨_, List.mem_filter.mpr ⟨hsecond, by simp⟩, hlinked⟩, ?_, ?_⟩
  · rw [← hpath]
    exact FileTree.seek_eq_ok_iff.mpr
      ⟨40, reaches_path hbeside.names (by decide) (by cbv) loopTree_start (loopTree_test 40)⟩
  · rw [← hlinked]
    exact FileTree.seek_eq_ok_iff.mpr
      ⟨39, reaches_path hbelow.names (by decide) (by cbv) loopTree_folder (loopTree_test 39)⟩

end Suite

end LiveDoc
