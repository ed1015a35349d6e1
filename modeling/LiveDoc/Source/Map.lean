import LiveDoc.FileTree.Basic
import LiveDoc.Source.Span

namespace LiveDoc

-- A registered text. One read from disk remembers its canonical location.
structure Source where
  name : String
  location : Option Location
  text : String
  deriving DecidableEq, Repr

-- The name and the text, as reports show them.
def Source.page (source : Source) : String × String := (source.name, source.text)

-- Every text a run has touched, in the order of registration: the pages of the reports, and what a
-- run knows of each text. The position in a list is the id. `places` has the ids of the files.
structure SourceTable where
  pages : List (String × String)
  sources : List Source
  places : List (Location × Nat)
  deriving DecidableEq, Repr

namespace SourceTable

def empty : SourceTable := ⟨[], [], []⟩

def size (table : SourceTable) : Nat := table.sources.length

def get? (table : SourceTable) (id : Nat) : Option Source := table.sources[id]?

def text (table : SourceTable) (id : Nat) : String := ((table.get? id).map (·.text)).getD ""

def name (table : SourceTable) (id : Nat) : String :=
  ((table.get? id).map (·.name)).getD "<unknown>"

def location? (table : SourceTable) (id : Nat) : Option Location :=
  (table.get? id).bind (·.location)

def page (table : SourceTable) (id : Nat) : String × String :=
  (table.pages[id]?).getD ("<unknown>", "")

def idAt? (table : SourceTable) (location : Location) : Option Nat :=
  (table.places.find? (·.1 == location)).map (·.2)

-- A position as people read it: the source's name and the line.
def position (table : SourceTable) (span : Span) : String :=
  table.name span.source ++ ":" ++ toString span.line

-- Registers a text. The id is that of its page.
def push (table : SourceTable) (source : Source) : Nat × SourceTable :=
  (table.pages.length,
    { table with pages := table.pages ++ [source.page], sources := table.sources ++ [source] })

-- Gives a location an id, in place of the one that it may have.
def mark (table : SourceTable) (location : Location) (id : Nat) : SourceTable :=
  { table with places := (location, id) :: table.places.filter (·.1 != location) }

def add (table : SourceTable) (name text : String) : Nat × SourceTable :=
  table.push ⟨name, none, text⟩

-- A file is read once, under whatever path it was first named.
def load (table : SourceTable) (tree : FileTree) (path : String) :
    Except PathError Nat × SourceTable :=
  match tree.locate path with
  | .error cause => (.error cause, table)
  | .ok location =>
      match table.idAt? location with
      | some id => (.ok id, table)
      | none =>
          match tree.textAt location with
          | .error cause => (.error cause, table)
          | .ok text =>
              let (id, table) := table.push ⟨path, some location, text⟩
              (.ok id, table.mark location id)

-- The three lists tell the same: a page for each source, and for each location the first source that
-- was read there.
structure InStep (table : SourceTable) : Prop where
  pages : table.pages = table.sources.map Source.page
  places : ∀ location,
    table.idAt? location = table.sources.findIdx? fun source => source.location == some location

variable {table : SourceTable} {location : Location}

theorem InStep.empty : InStep .empty := ⟨rfl, fun _ => rfl⟩

theorem InStep.fst_push (h : table.InStep) (source : Source) : (table.push source).1 = table.size := by
  rw [push, h.pages, List.length_map, size]

theorem idAt?_mark (table : SourceTable) (location other : Location) (id : Nat) :
    (table.mark location id).idAt? other =
      if location = other then some id else table.idAt? other := by
  rw [idAt?, mark]
  by_cases hsame : location = other
  · simp [hsame]
  · rw [if_neg hsame, List.find?_cons_of_neg (by simpa using hsame), List.find?_filter, idAt?]
    congr 2
    funext place
    by_cases hplace : place.1 = other
    · simp [hplace, Ne.symm hsame]
    · simp [hplace]

theorem findIdx?_push (table : SourceTable) (source : Source) (location : Location) :
    (table.push source).2.sources.findIdx? (fun own => own.location == some location) =
      (table.sources.findIdx? fun own => own.location == some location).or
        (if source.location = some location then some table.size else none) := by
  by_cases hsame : source.location = some location <;>
    simp [push, size, List.findIdx?_append, List.findIdx?_cons, hsame]

-- A text that is no file, or a file that was read before, changes no location.
theorem InStep.push (h : table.InStep) {source : Source}
    (hknown : ∀ location, source.location = some location → table.idAt? location ≠ none) :
    (table.push source).2.InStep := by
  refine ⟨by simp [SourceTable.push, h.pages], fun location => ?_⟩
  rw [findIdx?_push, ← h.places]
  change table.idAt? location = _
  by_cases hsame : source.location = some location
  · obtain ⟨id, hid⟩ := Option.ne_none_iff_exists'.mp (hknown location hsame)
    rw [hid, Option.some_or]
  · rw [if_neg hsame, Option.or_none]

-- Behind the text of a new file comes the mark for it.
theorem InStep.push_mark (h : table.InStep) {source : Source}
    (hlocation : source.location = some location) (hnew : table.idAt? location = none) :
    ((table.push source).2.mark location (table.push source).1).InStep := by
  refine ⟨by simp [SourceTable.push, mark, h.pages], fun other => ?_⟩
  rw [idAt?_mark, h.fst_push]
  refine Eq.trans ?_ (findIdx?_push table source other).symm
  rw [← h.places, hlocation]
  by_cases hsame : location = other
  · rw [← hsame, hnew, if_pos rfl, if_pos rfl, Option.none_or]
  · rw [if_neg hsame, if_neg (by simpa using hsame), Option.or_none]
    rfl

theorem InStep.load (h : table.InStep) (tree : FileTree) (path : String) :
    (table.load tree path).2.InStep := by
  unfold SourceTable.load
  split
  · exact h
  · split
    · exact h
    · rename_i hnew
      split
      · exact h
      · exact h.push_mark rfl hnew

end SourceTable

-- The texts of a run, with their lists in step.
structure SourceMap extends SourceTable where
  inStep : toSourceTable.InStep
  deriving DecidableEq, Repr

namespace SourceMap

def empty : SourceMap := ⟨.empty, .empty⟩

def add (map : SourceMap) (name text : String) : Nat × SourceMap :=
  let result := map.toSourceTable.add name text
  (result.1, ⟨result.2, map.inStep.push nofun⟩)

-- Reads a file unless it has been read, with the id that it has in either case.
def read (map : SourceMap) (tree : FileTree) (path : String) : Except PathError Nat × SourceMap :=
  let result := map.toSourceTable.load tree path
  (result.1, ⟨result.2, map.inStep.load tree path⟩)

def load (map : SourceMap) (tree : FileTree) (path : String) : Except PathError (Nat × SourceMap) :=
  let (result, next) := map.read tree path
  result.map fun id => (id, next)

end SourceMap

end LiveDoc
