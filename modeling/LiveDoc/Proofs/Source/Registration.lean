import LiveDoc.Proofs.Source.Validity
import Mathlib

namespace LiveDoc

-- An operation on the sources of a run: a file is read, or a text that is no file is registered.
inductive Registration where
  | load (path : String)
  | add (name text : String)

def Registration.perform (tree : FileTree) (own : Registration) (table : SourceTable) :
    Except PathError Nat × SourceTable :=
  match own with
  | .load path => table.load tree path
  | .add name text => (.ok (table.add name text).1, (table.add name text).2)

-- Operations with their answers, in order.
abbrev Journal := List (Registration × Except PathError Nat)

-- Operations one after the other, whatever comes of them.
def performAll (tree : FileTree) : List Registration → SourceTable → Journal × SourceTable
  | [], table => ([], table)
  | own :: rest, table =>
      let result := own.perform tree table
      let more := performAll tree rest result.2
      ((own, result.1) :: more.1, more.2)

theorem performAll_append (tree : FileTree) (front back : List Registration) (table : SourceTable) :
    performAll tree (front ++ back) table =
      ((performAll tree front table).1 ++ (performAll tree back (performAll tree front table).2).1,
        (performAll tree back (performAll tree front table).2).2) := by
  induction front generalizing table with
  | nil => rfl
  | cons own rest ih => simp only [List.cons_append, performAll, ih]

-- What an operation can come to where the lists are in step.
inductive Registration.Outcome (tree : FileTree) (map : SourceMap) :
    Registration → Except PathError Nat → SourceMap → Prop
  | unread {path : String} (cause : PathError) :
      (∀ location, tree.locate path = .ok location → map.idAt? location = none) →
      Outcome tree map (.load path) (.error cause) map
  | known {path : String} {location : Location} {id : Nat} :
      tree.locate path = .ok location → map.idAt? location = some id →
      Outcome tree map (.load path) (.ok id) map
  | read {path : String} {location : Location} {text : String} :
      tree.locate path = .ok location → map.idAt? location = none →
      tree.textAt location = .ok text →
      Outcome tree map (.load path) (.ok map.size) (map.push ⟨path, some location, text⟩)
  | added (name text : String) :
      Outcome tree map (.add name text) (.ok map.size) (map.push ⟨name, none, text⟩)

theorem Registration.outcome_load (tree : FileTree) (path : String) (map : SourceMap) :
    Outcome tree map (.load path) (map.read tree path).1 (map.read tree path).2 := by
  cases hlocate : tree.locate path with
  | error cause =>
      rw [SourceMap.read_of_unlocated hlocate]
      exact .unread cause fun location hlocation => by cases hlocate.symm.trans hlocation
  | ok location =>
      cases hid : map.idAt? location with
      | some id =>
          rw [SourceMap.read_of_known hlocate hid]
          exact .known hlocate hid
      | none =>
          cases htext : tree.textAt location with
          | ok text =>
              rw [SourceMap.read_of_new hlocate hid htext]
              exact .read hlocate hid htext
          | error cause =>
              rw [SourceMap.read_of_unread hlocate hid htext]
              refine .unread cause fun other hother => ?_
              cases hlocate.symm.trans hother
              exact hid

-- An operation keeps the lists in step.
theorem Registration.perform_eq (tree : FileTree) (own : Registration) (map : SourceMap) :
    ∃ answer next, own.perform tree map.toSourceTable = (answer, next.toSourceTable) ∧
      own.Outcome tree map answer next := by
  cases own with
  | load path => exact ⟨_, _, rfl, Registration.outcome_load tree path map⟩
  | add name text =>
      have hadd := map.add_eq name text
      refine ⟨.ok map.size, map.push ⟨name, none, text⟩, ?_, .added name text⟩
      have hid : (map.toSourceTable.add name text).1 = map.size := congrArg Prod.fst hadd
      exact Prod.ext (congrArg Except.ok hid) rfl

namespace SourceMap

variable {map : SourceMap} {location : Location} {id : Nat}

theorem location?_push (map : SourceMap) (source : Source) (id : Nat) :
    (map.push source).location? id =
      if id = map.size then source.location else map.location? id := by
  by_cases hid : id = map.size
  · subst hid
    rw [if_pos rfl, SourceTable.location?, get?_push_size, Option.bind_some]
  · rw [if_neg hid]
    simp only [SourceTable.location?, SourceTable.get?, sources_push]
    by_cases hlt : id < map.sources.length
    · rw [List.getElem?_append_left hlt]
    · have hle : (map.sources ++ [source]).length ≤ id := by
        rw [List.length_append, List.length_singleton]
        change id ≠ map.sources.length at hid
        omega
      rw [List.getElem?_eq_none hle, List.getElem?_eq_none (Nat.le_of_not_lt hlt)]

theorem location?_of_idAt? (h : map.idAt? location = some id) :
    map.location? id = some location := by
  obtain ⟨hid, hlocation⟩ := exists_getElem_of_idAt? h
  rw [SourceTable.location?, SourceTable.get?, List.getElem?_eq_getElem hid, Option.bind_some,
    hlocation]

theorem page_eq (map : SourceMap) (id : Nat) : map.page id = (map.name id, map.text id) := by
  rw [SourceTable.page, map.inStep.pages, List.getElem?_map, SourceTable.name, SourceTable.text,
    SourceTable.get?]
  cases map.sources[id]? with
  | none => rfl
  | some source => rfl

end SourceMap

-- A file was loaded, under whatever path, and has that id.
def Journal.Loaded (journal : Journal) (tree : FileTree) (location : Location) (id : Nat) : Prop :=
  ∃ path, (.load path, .ok id) ∈ journal ∧ tree.locate path = .ok location

-- How the sources of a run stand to what has been done so far.
structure Journal.Tells (journal : Journal) (tree : FileTree) (map : SourceMap) : Prop where
  answered : ∀ id, id < map.size ↔ ∃ own, (own, .ok id) ∈ journal
  loaded : ∀ location id, map.idAt? location = some id ↔ journal.Loaded tree location id
  keyed : ∀ location id, map.location? id = some location → map.idAt? location = some id
  added : ∀ name text id, (.add name text, .ok id) ∈ journal → map.location? id = none
  text : ∀ location id, map.idAt? location = some id → tree.textAt location = .ok (map.text id)

theorem Journal.tells_nil (tree : FileTree) : Journal.Tells [] tree .empty := by
  constructor <;> simp [SourceMap.empty, SourceTable.empty, SourceTable.size, SourceTable.idAt?,
    SourceTable.location?, SourceTable.get?, Journal.Loaded]

section Steps

variable {tree : FileTree} {journal : Journal} {map next : SourceMap} {own : Registration}
  {answer : Except PathError Nat} {location : Location} {id : Nat}

theorem Journal.loaded_concat :
    (journal ++ [(own, answer)]).Loaded tree location id ↔
      journal.Loaded tree location id ∨
        ∃ path, own = .load path ∧ answer = .ok id ∧ tree.locate path = .ok location := by
  simp only [Journal.Loaded, List.mem_append, List.mem_singleton, Prod.mk.injEq, or_and_right,
    exists_or]
  refine or_congr_right (exists_congr fun path => ?_)
  rw [and_assoc, eq_comm, eq_comm (a := answer)]

-- An operation that registers nothing leaves what is known of the sources.
theorem Journal.Tells.same (h : journal.Tells tree map)
    (hanswered : ∀ id, answer = .ok id → id < map.size)
    (hloaded : ∀ path location id, own = .load path → answer = .ok id →
      tree.locate path = .ok location → map.idAt? location = some id)
    (hadded : ∀ name text, own ≠ .add name text) :
    (journal ++ [(own, answer)]).Tells tree map := by
  refine ⟨fun id => ?_, fun location id => ?_, h.keyed, fun name text id hmem => ?_, h.text⟩
  · rw [h.answered]
    constructor
    · rintro ⟨other, hother⟩
      exact ⟨other, List.mem_append_left _ hother⟩
    · rintro ⟨other, hother⟩
      rcases List.mem_append.mp hother with hother | hother
      · exact ⟨other, hother⟩
      · cases List.mem_singleton.mp hother
        exact (h.answered id).mp (hanswered id rfl)
  · rw [Journal.loaded_concat, h.loaded]
    refine (or_iff_left_of_imp ?_).symm
    rintro ⟨path, hown, hanswer, hlocate⟩
    exact (h.loaded location id).mp (hloaded path location id hown hanswer hlocate)
  · rcases List.mem_append.mp hmem with hmem | hmem
    · exact h.added name text id hmem
    · cases List.mem_singleton.mp hmem
      exact (hadded name text rfl).elim

-- A source that is registered is a file that none of those before is, or no file.
theorem Journal.Tells.push (h : journal.Tells tree map) {source : Source}
    (hnew : ∀ location, source.location = some location → map.idAt? location = none ∧
      tree.textAt location = .ok source.text)
    (hloaded : ∀ location, source.location = some location ↔
      ∃ path, own = .load path ∧ tree.locate path = .ok location)
    (hadded : ∀ name text, own = .add name text → source.location = none) :
    (journal ++ [(own, Except.ok map.size)]).Tells tree (map.push source) := by
  have hsize := map.size_push source
  refine ⟨fun id => ?_, fun location id => ?_, fun location id hlocation => ?_,
    fun name text id hmem => ?_, fun location id hid => ?_⟩
  · rw [hsize, Nat.lt_succ_iff_lt_or_eq, h.answered]
    simp only [List.mem_append, List.mem_singleton, Prod.mk.injEq, Except.ok.injEq, exists_or,
      exists_eq_left]
  · rw [SourceMap.idAt?_push, Journal.loaded_concat, ← h.loaded]
    cases hid : map.idAt? location with
    | some known =>
        have hnone : ¬∃ path, own = .load path ∧ tree.locate path = .ok location := by
          rw [← hloaded]
          intro hlocation
          cases hid.symm.trans (hnew location hlocation).1
        rw [Option.some_or]
        refine (or_iff_left ?_).symm
        rintro ⟨path, hown, -, hlocate⟩
        exact hnone ⟨path, hown, hlocate⟩
    | none =>
        rw [Option.none_or, Option.ite_none_right_eq_some, Option.some.injEq, hloaded]
        simp only [reduceCtorEq, false_or, Except.ok.injEq]
        constructor
        · rintro ⟨⟨path, hown, hlocate⟩, hsame⟩
          exact ⟨path, hown, hsame, hlocate⟩
        · rintro ⟨path, hown, hsame, hlocate⟩
          exact ⟨⟨path, hown, hlocate⟩, hsame⟩
  · rw [SourceMap.location?_push] at hlocation
    split at hlocation
    · rename_i hid
      rw [SourceMap.idAt?_push, (hnew location hlocation).1, Option.none_or, if_pos hlocation, hid]
    · exact SourceMap.idAt?_push_of_some source (h.keyed location id hlocation)
  · rw [SourceMap.location?_push]
    rcases List.mem_append.mp hmem with hmem | hmem
    · have hlt := (h.answered id).mpr ⟨_, hmem⟩
      rw [if_neg (Nat.ne_of_lt hlt)]
      exact h.added name text id hmem
    · cases List.mem_singleton.mp hmem
      rw [if_pos rfl]
      exact hadded name text rfl
  · rw [SourceMap.idAt?_push] at hid
    rcases Option.or_eq_some_iff.mp hid with hknown | ⟨-, hown⟩
    · rw [SourceMap.text_push_of_lt source (SourceMap.lt_size_of_idAt? hknown)]
      exact h.text location id hknown
    · obtain ⟨hlocation, hsame⟩ := Option.ite_none_right_eq_some.mp hown
      cases hsame
      rw [SourceMap.text_push_size]
      exact (hnew location hlocation).2

theorem Registration.Outcome.tells (h : own.Outcome tree map answer next)
    (htells : journal.Tells tree map) : (journal ++ [(own, answer)]).Tells tree next := by
  cases h with
  | unread cause hnew => exact htells.same (by simp) (by simp) (by simp)
  | known hlocate hid =>
      refine htells.same (fun other hother => ?_) (fun path location other hown hother hplace => ?_)
        (by simp)
      · cases hother
        exact SourceMap.lt_size_of_idAt? hid
      · cases hown
        cases hother
        cases hlocate.symm.trans hplace
        exact hid
  | read hlocate hid htext =>
      refine htells.push (fun place hplace => ?_) (fun place => ?_) (by simp)
      · cases hplace
        exact ⟨hid, htext⟩
      · simp [hlocate]
  | added name text => exact htells.push (by simp) (by simp) fun _ _ _ => rfl

theorem Registration.Outcome.isPrefix (h : own.Outcome tree map answer next) :
    map.sources <+: next.sources := by
  cases h with
  | unread | known => exact List.prefix_rfl
  | read | added =>
      rw [SourceMap.sources_push]
      exact List.prefix_append ..

-- The induction is on the operations. Each keeps the lists in step, and what is known of them.
theorem performAll_eq (rest : List Registration) (h : journal.Tells tree map) :
    ∃ more next, performAll tree rest map.toSourceTable = (more, next.toSourceTable) ∧
      (journal ++ more).Tells tree next ∧ map.sources <+: next.sources := by
  induction rest generalizing journal map with
  | nil => exact ⟨[], map, rfl, by rwa [List.append_nil], List.prefix_rfl⟩
  | cons own rest ih =>
      obtain ⟨answer, middle, hperform, houtcome⟩ := own.perform_eq tree map
      obtain ⟨more, next, hrest, htells, hprefix⟩ := ih (houtcome.tells h)
      refine ⟨(own, answer) :: more, next, ?_, ?_, houtcome.isPrefix.trans hprefix⟩
      · rw [performAll, hperform]
        dsimp only
        rw [hrest]
      · rwa [List.append_assoc] at htells

end Steps

-- What is known of a source stays as it is.
def SourceTable.Keeps (table next : SourceTable) : Prop :=
  ∀ id < table.size, next.name id = table.name id ∧ next.text id = table.text id ∧
    next.location? id = table.location? id ∧ next.page id = table.page id

theorem SourceMap.keeps_of_isPrefix {map next : SourceMap} (h : map.sources <+: next.sources) :
    map.Keeps next.toSourceTable := by
  intro id hid
  have hsame : next.get? id = map.get? id := by
    have hown := List.getElem?_eq_getElem hid
    exact (SourceMap.get?_of_prefix h hown).trans hown.symm
  simp only [SourceMap.page_eq, SourceTable.name, SourceTable.text, SourceTable.location?, hsame,
    and_self]

-- The three lists tell the same of each id.
structure SourceTable.Agrees (table : SourceTable) : Prop where
  size : table.pages.length = table.size
  page : ∀ id, table.page id = (table.name id, table.text id)
  place : ∀ location id, table.idAt? location = some id ↔ table.location? id = some location

theorem Journal.Tells.agrees {tree : FileTree} {journal : Journal} {map : SourceMap}
    (h : journal.Tells tree map) : map.Agrees where
  size := by rw [map.inStep.pages, List.length_map, SourceTable.size]
  page := map.page_eq
  place := fun location id => ⟨SourceMap.location?_of_idAt?, h.keyed location id⟩

-- The file that a path names was loaded before, under this path or another one.
def Journal.Knows (journal : Journal) (tree : FileTree) (path : String) : Prop :=
  ∃ location id, tree.locate path = .ok location ∧ journal.Loaded tree location id

-- How an operation is answered, after those of a journal have led to `table`.
structure Registration.Answered (tree : FileTree) (journal : Journal) (table : SourceTable)
    (own : Registration) (answer : Except PathError Nat) (next : SourceTable) : Prop where
  numbered : next = table ∨ answer = .ok table.size ∧ next.size = table.size + 1
  failed : ∀ cause, answer = .error cause → next = table
  added : ∀ name text, own = .add name text →
    answer = .ok table.size ∧ next.size = table.size + 1 ∧ next.name table.size = name ∧
      next.text table.size = text ∧ next.location? table.size = none
  known : ∀ path, own = .load path →
    ((∃ id < table.size, answer = .ok id) ↔ journal.Knows tree path) ∧
      (journal.Knows tree path → next = table)
  loaded : ∀ path id, own = .load path → answer = .ok id →
    ∃ location, tree.locate path = .ok location ∧ next.location? id = some location ∧
      tree.textAt location = .ok (next.text id) ∧ ∀ name text, (.add name text, .ok id) ∉ journal

theorem Registration.Outcome.answered {tree : FileTree} {journal : Journal} {map next : SourceMap}
    {own : Registration} {answer : Except PathError Nat}
    (h : own.Outcome tree map answer next) (htells : journal.Tells tree map) :
    own.Answered tree journal map.toSourceTable answer next.toSourceTable := by
  have hknows : ∀ path, journal.Knows tree path ↔
      ∃ location id, tree.locate path = .ok location ∧ map.idAt? location = some id := by
    intro path
    simp only [Journal.Knows, htells.loaded]
  have hlater := h.tells htells
  have hfile : ∀ path id, own = .load path → answer = .ok id →
      ∃ location, tree.locate path = .ok location ∧ next.idAt? location = some id := by
    rintro path id rfl rfl
    cases h with
    | known hlocate hid => exact ⟨_, hlocate, hid⟩
    | read hlocate hid _ =>
        refine ⟨_, hlocate, ?_⟩
        rw [SourceMap.idAt?_push, hid, Option.none_or, if_pos rfl]
  refine ⟨?_, ?_, ?_, ?_, fun path id hown hanswer => ?_⟩
  · cases h with
    | unread | known => exact .inl rfl
    | read | added => exact .inr ⟨rfl, map.size_push _⟩
  · rintro cause rfl
    cases h
    rfl
  · rintro name text rfl
    cases h
    refine ⟨rfl, map.size_push _, ?_, map.text_push_size _, ?_⟩
    · rw [SourceTable.name, SourceMap.get?_push_size, Option.map_some, Option.getD_some]
    · rw [SourceMap.location?_push, if_pos rfl]
  · rintro path rfl
    rw [hknows]
    cases h with
    | unread cause hnew =>
        refine ⟨iff_of_false (by simp) ?_, fun _ => rfl⟩
        rintro ⟨location, id, hlocate, hid⟩
        cases hid.symm.trans (hnew location hlocate)
    | known hlocate hid =>
        exact ⟨iff_of_true ⟨_, SourceMap.lt_size_of_idAt? hid, rfl⟩ ⟨_, _, hlocate, hid⟩,
          fun _ => rfl⟩
    | read hlocate hid _ =>
        have hnew : ¬∃ location id, tree.locate path = .ok location ∧
            map.idAt? location = some id := by
          rintro ⟨location, id, hplace, hsome⟩
          cases hlocate.symm.trans hplace
          cases hid.symm.trans hsome
        refine ⟨iff_of_false ?_ hnew, fun hknown => (hnew hknown).elim⟩
        rintro ⟨id, hlt, hsame⟩
        cases hsame
        exact Nat.lt_irrefl _ hlt
  · obtain ⟨location, hlocate, hid⟩ := hfile path id hown hanswer
    have hlocation := SourceMap.location?_of_idAt? hid
    refine ⟨location, hlocate, hlocation, hlater.text location id hid, fun name text hmem => ?_⟩
    have hnone := hlater.added name text id (List.mem_append_left _ hmem)
    cases hnone.symm.trans hlocation

-- The sources of a run are append-only, and files among them are told apart by what they are, not
-- by how their paths are spelled. This holds after any operations on no sources, for all operations
-- that can follow.
theorem sources_are_append_only (tree : FileTree) (earlier : List Registration) :
    ∃ journal table, performAll tree earlier .empty = (journal, table) ∧ table.Agrees ∧
      (∀ id, id < table.size ↔ ∃ own, (own, .ok id) ∈ journal) ∧
      (∀ i j location, table.location? i = some location → table.location? j = some location →
        i = j) ∧
      (∀ later, table.Keeps (performAll tree (earlier ++ later) .empty).2) ∧
      ∀ own : Registration, own.Answered tree journal table (own.perform tree table).1
        (own.perform tree table).2 := by
  obtain ⟨journal, map, hrun, htells, -⟩ := performAll_eq earlier (Journal.tells_nil tree)
  rw [List.nil_append] at htells
  refine ⟨journal, map.toSourceTable, hrun, htells.agrees, htells.answered,
    fun i j location hi hj => ?_, fun later => ?_, fun own => ?_⟩
  · exact Option.some.inj ((htells.keyed location i hi).symm.trans (htells.keyed location j hj))
  · obtain ⟨more, next, hlater, -, hprefix⟩ := performAll_eq later htells
    have hrun : performAll tree earlier .empty = (journal, map.toSourceTable) := hrun
    rw [performAll_append, hrun, hlater]
    exact SourceMap.keeps_of_isPrefix hprefix
  · obtain ⟨answer, next, hperform, houtcome⟩ := own.perform_eq tree map
    rw [hperform]
    exact houtcome.answered htells

def linkedTree : FileTree := ⟨[(["a"], .file "x\n".toUTF8), (["l"], .link "a")], []⟩

def linkedTable : SourceTable :=
  ⟨[("a", "x\n"), ("n", "t")], [⟨"a", some ["a"], "x\n"⟩, ⟨"n", none, "t"⟩], [(["a"], 0)]⟩

-- Another spelling of the path and a link come to the file that has been loaded.
theorem file_is_loaded_once :
    performAll linkedTree [.load "a", .add "n" "t"] .empty =
        ([(.load "a", .ok 0), (.add "n" "t", .ok 1)], linkedTable) ∧
      (Registration.load "./a").perform linkedTree linkedTable = (.ok 0, linkedTable) ∧
      (Registration.load "l").perform linkedTree linkedTable = (.ok 0, linkedTable) := by
  have hjournal : performAll linkedTree [.load "a", .add "n" "t"] .empty =
      ([(.load "a", .ok 0), (.add "n" "t", .ok 1)], linkedTable) := by cbv
  obtain ⟨journal, table, hrun, -, -, hsame, -, hanswers⟩ :=
    sources_are_append_only linkedTree [.load "a", .add "n" "t"]
  cases hjournal.symm.trans hrun
  have hknown : ∀ path, linkedTree.locate path = .ok ["a"] →
      (Registration.load path).perform linkedTree linkedTable = (.ok 0, linkedTable) := by
    intro path hlocate
    have hanswer := hanswers (.load path)
    have hknows : Journal.Knows [(.load "a", .ok 0), (.add "n" "t", .ok 1)] linkedTree path :=
      ⟨["a"], 0, hlocate, "a", List.mem_cons_self, by cbv⟩
    obtain ⟨hknown, hleft⟩ := hanswer.known path rfl
    obtain ⟨id, -, hid⟩ := hknown.mpr hknows
    obtain ⟨location, hplace, hlocation, -⟩ := hanswer.loaded path id rfl hid
    rw [hleft hknows] at hlocation
    cases hlocate.symm.trans hplace
    have hfirst : id = 0 := hsame id 0 ["a"] hlocation rfl
    exact Prod.ext (hfirst ▸ hid) (hleft hknows)
  exact ⟨hjournal, hknown "./a" (by cbv), hknown "l" (by cbv)⟩

end LiveDoc
