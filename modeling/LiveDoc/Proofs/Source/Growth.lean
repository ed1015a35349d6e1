import LiveDoc.Source.Map
import Mathlib.Data.List.Basic

namespace LiveDoc

-- Only a file that is an entry has a text.
theorem FileTree.mem_entries_of_textAt {tree : FileTree} {location : Location} {text : String}
    (h : tree.textAt location = .ok text) : location ∈ tree.entries.map Prod.fst := by
  unfold FileTree.textAt at h
  split at h
  · rename_i bytes hentry
    unfold FileTree.entry? at hentry
    split at hentry
    · rename_i place entry hfound
      have hplace : place = location := by simpa using List.find?_some hfound
      subst hplace
      exact List.mem_map.mpr ⟨_, List.mem_of_find?_eq_some hfound, rfl⟩
    · split at hentry <;> cases hentry
  · cases h
  · cases h

theorem FileTree.textAt_of_entry? {tree : FileTree} {location : Location} {text : String}
    (h : tree.entry? location = some (.file text.toUTF8)) : tree.textAt location = .ok text := by
  have hread : String.fromUTF8? text.toUTF8 = some text := by
    simp only [String.fromUTF8?, String.toUTF8_eq_toByteArray, dif_pos text.isValidUTF8]
    rfl
  rw [textAt, h]
  dsimp only
  rw [hread]

-- A table with one more text, and with its location if that is new.
def SourceTable.register (table : SourceTable) (source : Source) : SourceTable :=
  match source.location with
  | none => (table.push source).2
  | some location =>
      if table.idAt? location = none then (table.push source).2.mark location (table.push source).1
      else (table.push source).2

theorem SourceTable.sources_register (table : SourceTable) (source : Source) :
    (table.register source).sources = table.sources ++ [source] := by
  unfold register
  split
  · rfl
  · split <;> rfl

theorem SourceTable.InStep.register {table : SourceTable} (h : table.InStep) (source : Source) :
    (table.register source).InStep := by
  unfold SourceTable.register
  split
  · rename_i hlocation
    exact h.push fun location hsome => by cases hlocation.symm.trans hsome
  · rename_i location hlocation
    split
    · rename_i hnew
      exact h.push_mark hlocation hnew
    · rename_i hknown
      refine h.push fun other hother => ?_
      cases hlocation.symm.trans hother
      exact hknown

namespace SourceMap

variable {tree : FileTree} {map next later : SourceMap} {location other : Location}

theorem eq_of_table (h : map.toSourceTable = next.toSourceTable) : map = next := by
  cases map
  cases next
  cases h
  rfl

def push (map : SourceMap) (source : Source) : SourceMap :=
  ⟨map.register source, map.inStep.register source⟩

@[simp] theorem sources_push (map : SourceMap) (source : Source) :
    (map.push source).sources = map.sources ++ [source] :=
  SourceTable.sources_register _ source

theorem size_push (map : SourceMap) (source : Source) : (map.push source).size = map.size + 1 := by
  rw [SourceTable.size, sources_push, List.length_append, List.length_singleton, SourceTable.size]

theorem add_eq (map : SourceMap) (name text : String) :
    map.add name text = (map.size, map.push ⟨name, none, text⟩) :=
  Prod.ext (map.inStep.fst_push ⟨name, none, text⟩) (eq_of_table rfl)

section Load

variable {path : String} {cause : PathError}

theorem read_eq_of_table {result : Except PathError Nat}
    (h : map.toSourceTable.load tree path = (result, next.toSourceTable)) :
    map.read tree path = (result, next) := by
  have hnext : (map.read tree path).2.toSourceTable = next.toSourceTable := congrArg Prod.snd h
  exact Prod.ext (congrArg Prod.fst h : _) (eq_of_table hnext)

theorem read_of_unlocated (h : tree.locate path = .error cause) :
    map.read tree path = (.error cause, map) := by
  apply read_eq_of_table
  rw [SourceTable.load, h]

theorem read_of_known {id : Nat} (hlocate : tree.locate path = .ok location)
    (hid : map.idAt? location = some id) : map.read tree path = (.ok id, map) := by
  apply read_eq_of_table
  rw [SourceTable.load, hlocate]
  dsimp only
  rw [hid]

theorem read_of_unread (hlocate : tree.locate path = .ok location)
    (hnew : map.idAt? location = none) (htext : tree.textAt location = .error cause) :
    map.read tree path = (.error cause, map) := by
  apply read_eq_of_table
  rw [SourceTable.load, hlocate]
  dsimp only
  rw [hnew, htext]

-- A file that has not been read is registered.
theorem read_of_new {text : String} (hlocate : tree.locate path = .ok location)
    (hnew : map.idAt? location = none) (htext : tree.textAt location = .ok text) :
    map.read tree path = (.ok map.size, map.push ⟨path, some location, text⟩) := by
  apply read_eq_of_table
  have hregister : (map.push ⟨path, some location, text⟩).toSourceTable =
      (map.toSourceTable.push ⟨path, some location, text⟩).2.mark location map.size := by
    rw [← map.inStep.fst_push ⟨path, some location, text⟩]
    exact if_pos hnew
  rw [SourceTable.load, hlocate, hregister]
  dsimp only
  rw [hnew, htext, ← map.inStep.fst_push ⟨path, some location, text⟩]

theorem load_of_read_eq_ok {id : Nat} (h : map.read tree path = (.ok id, next)) :
    map.load tree path = .ok (id, next) := by
  rw [load, h]
  rfl

theorem load_of_read_eq_error (h : map.read tree path = (.error cause, next)) :
    map.load tree path = .error cause := by
  rw [load, h]
  rfl

-- A file that cannot be read leaves the sources.
theorem read_eq (map : SourceMap) (tree : FileTree) (path : String) :
    map.read tree path =
      match map.load tree path with
      | .error cause => (.error cause, map)
      | .ok (id, next) => (.ok id, next) := by
  cases hlocate : tree.locate path with
  | error cause =>
      have hlost : map.read tree path = (.error cause, map) := read_of_unlocated hlocate
      rw [load_of_read_eq_error hlost, hlost]
  | ok location =>
      cases hid : map.idAt? location with
      | some id =>
          have hknown := read_of_known hlocate hid
          rw [load_of_read_eq_ok hknown, hknown]
      | none =>
          cases htext : tree.textAt location with
          | error cause =>
              have hunread := read_of_unread hlocate hid htext
              rw [load_of_read_eq_error hunread, hunread]
          | ok text =>
              have hnew := read_of_new hlocate hid htext
              rw [load_of_read_eq_ok hnew, hnew]

end Load

-- The text at a location as a run reads it: the one that is registered, else that of the tree.
def textAt (map : SourceMap) (tree : FileTree) (location : Location) : Except PathError String :=
  match map.idAt? location with
  | some id => .ok (map.text id)
  | none => tree.textAt location

-- The id that the text at a location has.
def number (map : SourceMap) (location : Location) : Nat := (map.idAt? location).getD 0

-- The locations where a text can be read.
def readable (map : SourceMap) (tree : FileTree) : List Location :=
  tree.entries.map Prod.fst ++ map.sources.filterMap Source.location

theorem exists_getElem_of_idAt? {id : Nat} (h : map.idAt? location = some id) :
    ∃ hid : id < map.size, map.sources[id].location = some location := by
  rw [map.inStep.places] at h
  obtain ⟨hid, hat, -⟩ := List.findIdx?_eq_some_iff_getElem.mp h
  exact ⟨hid, by simpa using hat⟩

theorem lt_size_of_idAt? {id : Nat} (h : map.idAt? location = some id) : id < map.size :=
  (exists_getElem_of_idAt? h).1

theorem idAt?_push (map : SourceMap) (source : Source) (location : Location) :
    (map.push source).idAt? location = (map.idAt? location).or
      (if source.location = some location then some map.size else none) := by
  rw [(map.push source).inStep.places, sources_push, map.inStep.places]
  exact SourceTable.findIdx?_push _ source location

theorem idAt?_push_of_some {id : Nat} (source : Source) (h : map.idAt? location = some id) :
    (map.push source).idAt? location = some id := by
  rw [idAt?_push, h, Option.some_or]

theorem text_push_of_lt {id : Nat} (source : Source) (h : id < map.size) :
    (map.push source).text id = map.text id := by
  simp only [SourceTable.text, SourceTable.get?, sources_push, List.getElem?_append_left h]

theorem get?_push_size (map : SourceMap) (source : Source) :
    (map.push source).get? map.size = some source := by
  simp [SourceTable.get?, SourceTable.size]

theorem text_push_size (map : SourceMap) (source : Source) :
    (map.push source).text map.size = source.text := by
  rw [SourceTable.text, get?_push_size, Option.map_some, Option.getD_some]

-- A text of the tree that is registered leaves all texts as they are read.
theorem textAt_push {name text : String} (htext : tree.textAt location = .ok text)
    (other : Location) :
    (map.push ⟨name, some location, text⟩).textAt tree other = map.textAt tree other := by
  unfold textAt
  cases hother : map.idAt? other with
  | some id =>
      rw [idAt?_push_of_some _ hother]
      dsimp only
      rw [text_push_of_lt _ (lt_size_of_idAt? hother)]
  | none =>
      rw [idAt?_push, hother, Option.none_or]
      by_cases hsame : location = other
      · subst hsame
        rw [if_pos rfl]
        dsimp only
        rw [text_push_size, htext]
      · rw [if_neg (by simpa using hsame)]

-- What reading does to a map: it registers texts of the tree.
inductive Grows (tree : FileTree) : SourceMap → SourceMap → Prop
  | refl (map : SourceMap) : Grows tree map map
  | push {map next : SourceMap} {name text : String} {location : Location} :
      tree.textAt location = .ok text →
      Grows tree (map.push ⟨name, some location, text⟩) next → Grows tree map next

theorem Grows.trans (h : Grows tree map next) (h' : Grows tree next later) :
    Grows tree map later := by
  induction h with
  | refl => exact h'
  | push htext _ ih => exact .push htext (ih h')

theorem Grows.idAt? {id : Nat} (h : Grows tree map next) (hid : map.idAt? location = some id) :
    next.idAt? location = some id := by
  induction h with
  | refl => exact hid
  | push _ _ ih => exact ih (idAt?_push_of_some _ hid)

theorem Grows.number_eq {id : Nat} (h : Grows tree map next) (hid : map.idAt? location = some id) :
    next.number location = id := by
  rw [number, h.idAt? hid, Option.getD_some]

theorem Grows.textAt_eq (h : Grows tree map next) (location : Location) :
    next.textAt tree location = map.textAt tree location := by
  induction h with
  | refl => rfl
  | push htext _ ih => rw [ih, textAt_push htext]

-- What is loaded is the text that is read at the location, under the id that it then has.
theorem load_eq_ok {path : String} {id : Nat} (h : map.load tree path = .ok (id, next)) :
    ∃ location, tree.locate path = .ok location ∧
      map.textAt tree location = .ok (next.text id) ∧ Grows tree map next ∧
      next.idAt? location = some id := by
  cases hlocate : tree.locate path with
  | error cause => cases (load_of_read_eq_error (read_of_unlocated hlocate)).symm.trans h
  | ok location =>
      refine ⟨location, rfl, ?_⟩
      cases hid : map.idAt? location with
      | some found =>
          cases (load_of_read_eq_ok (read_of_known hlocate hid)).symm.trans h
          exact ⟨by rw [textAt, hid], .refl _, hid⟩
      | none =>
          cases htext : tree.textAt location with
          | error cause => cases (load_of_read_eq_error (read_of_unread hlocate hid htext)).symm.trans h
          | ok text =>
              cases (load_of_read_eq_ok (read_of_new hlocate hid htext)).symm.trans h
              refine ⟨?_, .push htext (.refl _), ?_⟩
              · rw [textAt, hid, text_push_size]
                exact htext
              · rw [idAt?_push, hid, Option.none_or, if_pos rfl]

theorem mem_readable_of_textAt {text : String} (h : map.textAt tree location = .ok text) :
    location ∈ map.readable tree := by
  unfold textAt at h
  split at h
  · rename_i id hid
    obtain ⟨hlt, hat⟩ := exists_getElem_of_idAt? hid
    exact List.mem_append_right _ (List.mem_filterMap.mpr ⟨_, List.getElem_mem hlt, hat⟩)
  · exact List.mem_append_left _ (FileTree.mem_entries_of_textAt h)

end SourceMap

end LiveDoc
