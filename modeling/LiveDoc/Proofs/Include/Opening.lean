import LiveDoc.Proofs.Document.Directives
import LiveDoc.Proofs.Include.Insertion
import Mathlib.Data.List.Nodup

namespace LiveDoc

-- The files that a run reads, with what is registered when it starts and when it stops.
structure Files where
  tree : FileTree
  before : SourceMap
  after : SourceMap

def Files.text (files : Files) (location : Location) : Except PathError String :=
  files.before.textAt files.tree location

def Files.number (files : Files) (location : Location) : Nat := files.after.number location

-- Where the paths in a file start.
def Location.directory (location : Location) : String := Location.text location.tail

-- What includes are compared by.
abbrev Target := Location × Option String

def Included.target (entry : Included) : Target := (entry.location, entry.part)

-- The range of a part of a text: all of it, or the section of that name.
def partRange? (text : String) : Option String → Option ByteRange
  | none => some ⟨0, Text.byteCount text.toList⟩
  | some name => (findSection? (sections text.toList) name.toList).map (·.range)

-- A directive that is read from a directory names a file, and these are the nodes of the part of
-- it that it names.
structure Opens (files : Files) (directory : String) (directive : Include) (location : Location)
    (nodes : List Node) : Prop where
  located : files.tree.locate (Path.join directory directive.path) = .ok location
  parsed : ∃ text range, files.text location = .ok text ∧
    partRange? text directive.part = some range ∧
    parseWindow text.toList (files.number location) range = .ok ⟨files.number location, nodes⟩

theorem Opens.unique {files : Files} {directory : String} {directive : Include}
    {location other : Location} {nodes more : List Node}
    (h : Opens files directory directive location nodes)
    (h' : Opens files directory directive other more) : location = other ∧ nodes = more := by
  have hlocation : location = other := by
    have := h.located.symm.trans h'.located
    cases this
    rfl
  subst hlocation
  obtain ⟨text, range, htext, hrange, hparse⟩ := h.parsed
  obtain ⟨text', range', htext', hrange', hparse'⟩ := h'.parsed
  cases htext.symm.trans htext'
  cases hrange.symm.trans hrange'
  cases hparse.symm.trans hparse'
  exact ⟨rfl, rfl⟩

section Cycles

variable {opened : List Included} {location : Location} {part : Option String}

theorem Included.isAt_iff {entry : Included} :
    entry.isAt location part = true ↔ entry.target = (location, part) := by
  simp [Included.isAt, Included.target]

theorem cycle?_cons (entry : Included) (rest : List Included) :
    cycle? (entry :: rest) location part =
      if entry.target = (location, part) then some ((entry :: rest).map (·.label))
      else cycle? rest location part := by
  unfold cycle?
  by_cases hsame : entry.isAt location part = true
  · simp [hsame, Included.isAt_iff.mp hsame]
  · rw [if_neg fun h => hsame (Included.isAt_iff.mpr h), List.dropWhile_cons_of_pos (by simp [hsame])]

theorem cycle?_eq_none :
    cycle? opened location part = none ↔ (location, part) ∉ opened.map Included.target := by
  induction opened with
  | nil => simp [cycle?]
  | cons entry rest ih =>
      rw [cycle?_cons]
      by_cases hsame : entry.target = (location, part)
      · simp [hsame]
      · simp [hsame, ih, Ne.symm hsame]

-- A circle starts with the first entry that is the same target.
theorem cycle?_eq_some {labels : List String} (h : cycle? opened location part = some labels) :
    ∃ front entry back, opened = front ++ entry :: back ∧ entry.target = (location, part) ∧
      (location, part) ∉ front.map Included.target ∧
      labels = (entry :: back).map (·.label) := by
  induction opened with
  | nil => cases h
  | cons first rest ih =>
      rw [cycle?_cons] at h
      by_cases hsame : first.target = (location, part)
      · rw [if_pos hsame] at h
        cases h
        exact ⟨[], first, rest, rfl, hsame, by simp, rfl⟩
      · rw [if_neg hsame] at h
        obtain ⟨front, entry, back, rfl, hentry, hfront, hlabels⟩ := ih h
        refine ⟨first :: front, entry, back, rfl, hentry, ?_, hlabels⟩
        simp only [List.map_cons, List.mem_cons, not_or]
        exact ⟨Ne.symm hsame, hfront⟩

end Cycles

section Runs

variable {tree : FileTree} {limit : Nat} {site : Site} {directive : Include} {map next : SourceMap}

theorem run_loadSource (path : String) (failed : PathError → DocumentError) :
    (loadSource tree path failed).run map =
      match map.load tree path with
      | .error cause => (.error (failed cause), map)
      | .ok (id, next) => (.ok id, next) := by
  unfold loadSource
  rw [Action.run_bind_of_ok (Action.run_get map), SourceMap.read_eq]
  cases map.load tree path with
  | error cause => rfl
  | ok loaded => rfl

-- The part of a text that a directive names, in a tree.
def partDocument (source : Nat) (text path : String) (directive : Include) :
    Except DocumentError Document :=
  match partRange? text directive.part with
  | some range => parseWindow text.toList source range
  | none => .error (.noSection (directive.part.getD "") path
      ((sections text.toList).map (·.name)) directive.span)

theorem run_readPart (source : Nat) (text path : String) :
    (readPart source text path directive).run map =
      (partDocument source text path directive, map) := by
  unfold readPart partDocument
  cases directive.part with
  | none => exact Action.run_liftM _ _
  | some name =>
      simp only [partRange?]
      cases findSection? (sections text.toList) name.toList with
      | none => rfl
      | some hit => exact Action.run_liftM _ _

-- The site of the directives in a file that a directive has opened.
def Site.enter (site : Site) (location : Location) (directive : Include) : Site :=
  ⟨location.directory, site.opened ++ [⟨location, directive.part, directive.label⟩],
    site.depth + 1⟩

def Site.targets (site : Site) : List Target := site.opened.map Included.target

theorem targets_enter (location : Location) :
    (site.enter location directive).targets = site.targets ++ [(location, directive.part)] := by
  simp [Site.targets, Site.enter, Included.target]

theorem nodup_targets_enter {location : Location} (h : site.targets.Nodup)
    (hnew : (location, directive.part) ∉ site.targets) :
    (site.enter location directive).targets.Nodup := by
  rw [targets_enter, ← List.concat_eq_append]
  exact h.concat hnew

-- What opening can come to.
inductive Opening (tree : FileTree) (limit : Nat) (site : Site) (directive : Include)
    (map : SourceMap) : Except DocumentError (Document × Site) × SourceMap → Prop
  | lost {cause : PathError} :
      tree.locate (Path.join site.directory directive.path) = .error cause →
      Opening tree limit site directive map
        (.error (.notIncluded (Path.join site.directory directive.path) cause directive.span), map)
  | circular {location : Location} {labels : List String} :
      tree.locate (Path.join site.directory directive.path) = .ok location →
      cycle? site.opened location directive.part = some labels →
      Opening tree limit site directive map
        (.error (.circular (labels ++ [directive.label]) directive.span), map)
  | tooDeep {location : Location} :
      tree.locate (Path.join site.directory directive.path) = .ok location →
      cycle? site.opened location directive.part = none → limit ≤ site.depth →
      Opening tree limit site directive map (.error (.tooDeep limit directive.span), map)
  | unread {location : Location} {cause : PathError} :
      tree.locate (Path.join site.directory directive.path) = .ok location →
      cycle? site.opened location directive.part = none → site.depth < limit →
      Opening tree limit site directive map
        (.error (.notIncluded (Path.join site.directory directive.path) cause directive.span), map)
  | refused {location : Location} {text : String} {number : Nat} {next : SourceMap}
      {e : DocumentError} :
      tree.locate (Path.join site.directory directive.path) = .ok location →
      cycle? site.opened location directive.part = none → site.depth < limit →
      map.Grows tree next → map.textAt tree location = .ok text →
      next.idAt? location = some number →
      partDocument number text (Path.join site.directory directive.path) directive = .error e →
      Opening tree limit site directive map (.error e, next)
  | opened {location : Location} {text : String} {number : Nat} {next : SourceMap}
      {document : Document} :
      tree.locate (Path.join site.directory directive.path) = .ok location →
      cycle? site.opened location directive.part = none → site.depth < limit →
      map.Grows tree next → map.textAt tree location = .ok text →
      next.idAt? location = some number →
      partDocument number text (Path.join site.directory directive.path) directive = .ok document →
      Opening tree limit site directive map (.ok (document, site.enter location directive), next)

-- Past its checks, opening loads the file and reads the part.
theorem openInclude_of_new {location : Location}
    (hlocate : tree.locate (Path.join site.directory directive.path) = .ok location)
    (hcycle : cycle? site.opened location directive.part = none) (hdepth : site.depth < limit) :
    openInclude tree limit site directive = (do
      let path := Path.join site.directory directive.path
      let number ← loadSource tree path (.notIncluded path · directive.span)
      let document ← readPart number ((← get).text number) path directive
      pure (document, site.enter location directive)) := by
  unfold openInclude
  simp only [hlocate, hcycle, Nat.not_le_of_lt hdepth, if_false]
  rfl

theorem run_openInclude {location : Location} {number : Nat} {document : Document}
    (hlocate : tree.locate (Path.join site.directory directive.path) = .ok location)
    (hcycle : cycle? site.opened location directive.part = none) (hdepth : site.depth < limit)
    (hload : map.load tree (Path.join site.directory directive.path) = .ok (number, next))
    (hpart : partDocument number (next.text number) (Path.join site.directory directive.path)
      directive = .ok document) :
    (openInclude tree limit site directive).run map =
      (.ok (document, site.enter location directive), next) := by
  rw [openInclude_of_new hlocate hcycle hdepth,
    Action.run_bind_of_ok (by rw [run_loadSource, hload]), Action.run_bind_of_ok (Action.run_get next),
    Action.run_bind_of_ok (by rw [run_readPart, hpart])]
  rfl

theorem opening_openInclude : Opening tree limit site directive map
    ((openInclude tree limit site directive).run map) := by
  cases hlocate : tree.locate (Path.join site.directory directive.path) with
  | error cause =>
      simp only [openInclude, hlocate]
      exact .lost hlocate
  | ok location =>
      cases hcycle : cycle? site.opened location directive.part with
      | some labels =>
          simp only [openInclude, hlocate, hcycle]
          exact .circular hlocate hcycle
      | none =>
          by_cases hdepth : limit ≤ site.depth
          · simp only [openInclude, hlocate, hcycle, hdepth, if_true]
            exact .tooDeep hlocate hcycle hdepth
          · have hdepth := Nat.lt_of_not_le hdepth
            have hnew := openInclude_of_new hlocate hcycle hdepth
            have hrun := @run_loadSource tree map (Path.join site.directory directive.path)
              (.notIncluded (Path.join site.directory directive.path) · directive.span)
            cases hload : map.load tree (Path.join site.directory directive.path) with
            | error cause =>
                rw [hload] at hrun
                rw [hnew, Action.run_bind_of_error hrun]
                exact .unread hlocate hcycle hdepth
            | ok loaded =>
                obtain ⟨number, next⟩ := loaded
                obtain ⟨place, hplace, htext, hgrows, hnumber⟩ := SourceMap.load_eq_ok hload
                cases hlocate.symm.trans hplace
                cases hpart : partDocument number (next.text number)
                    (Path.join site.directory directive.path) directive with
                | error e =>
                    rw [hload] at hrun
                    rw [hnew, Action.run_bind_of_ok hrun, Action.run_bind_of_ok (Action.run_get next),
                      Action.run_bind_of_error (by rw [run_readPart, hpart])]
                    exact .refused hlocate hcycle hdepth hgrows htext hnumber hpart
                | ok document =>
                    rw [run_openInclude hlocate hcycle hdepth hload hpart]
                    exact .opened hlocate hcycle hdepth hgrows htext hnumber hpart

theorem opening_of_run {result : Except DocumentError (Document × Site)}
    (h : (openInclude tree limit site directive).run map = (result, next)) :
    Opening tree limit site directive map (result, next) := by
  rw [← h]
  exact opening_openInclude

theorem keeps_openInclude : Keeps tree (openInclude tree limit site directive) := by
  intro map
  rcases hrun : (openInclude tree limit site directive).run map with ⟨result, next⟩
  cases opening_of_run hrun with
  | refused _ _ _ hgrows _ _ _ => exact hgrows
  | opened _ _ _ hgrows _ _ _ => exact hgrows
  | _ => exact .refl map

-- A file that is read and refused is refused for what it holds.
theorem partDocument_eq_error {source : Nat} {text path : String} {e : DocumentError}
    (h : partDocument source text path directive = .error e) :
    (∃ problem span, e = .malformed problem span) ∨
      ∃ name path available span, e = .noSection name path available span := by
  unfold partDocument at h
  split at h
  · exact .inl (malformed_of_parseWindow h)
  · cases h
    exact .inr ⟨_, _, _, _, rfl⟩

theorem openInclude_eq_circular {labels : List String} {span : Span}
    (h : (openInclude tree limit site directive).run map = (.error (.circular labels span), next)) :
    span = directive.span ∧ ∃ location front,
      tree.locate (Path.join site.directory directive.path) = .ok location ∧
      cycle? site.opened location directive.part = some front ∧
      labels = front ++ [directive.label] := by
  cases opening_of_run h with
  | circular hlocate hcycle => exact ⟨rfl, _, _, hlocate, hcycle, rfl⟩
  | refused _ _ _ _ _ _ hpart =>
      rcases partDocument_eq_error hpart with ⟨_, _, he⟩ | ⟨_, _, _, _, he⟩ <;> cases he

theorem openInclude_eq_tooDeep {bound : Nat} {span : Span}
    (h : (openInclude tree limit site directive).run map = (.error (.tooDeep bound span), next)) :
    bound = limit ∧ span = directive.span ∧ limit ≤ site.depth ∧ ∃ location,
      tree.locate (Path.join site.directory directive.path) = .ok location ∧
      (location, directive.part) ∉ site.targets := by
  cases opening_of_run h with
  | tooDeep hlocate hcycle hdepth =>
      exact ⟨rfl, rfl, hdepth, _, hlocate, cycle?_eq_none.mp hcycle⟩
  | refused _ _ _ _ _ _ hpart =>
      rcases partDocument_eq_error hpart with ⟨_, _, he⟩ | ⟨_, _, _, _, he⟩ <;> cases he

end Runs

theorem source_of_parseWindow {text : List Char} {source : Nat} {window : ByteRange}
    {document : Document} (h : parseWindow text source window = .ok document) :
    document = ⟨source, document.nodes⟩ := by
  unfold parseWindow at h
  cases hbuilt : buildNodes text source (segments text window) with
  | error e =>
      rw [hbuilt] at h
      cases h
  | ok nodes =>
      rw [hbuilt] at h
      cases h
      rfl

-- What is opened between the start and the stop of a run.
theorem openInclude_eq_ok {files : Files} {limit : Nat} {site inner : Site} {directive : Include}
    {document : Document} {map next : SourceMap} (hbefore : files.before.Grows files.tree map)
    (hafter : next.Grows files.tree files.after)
    (h : (openInclude files.tree limit site directive).run map = (.ok (document, inner), next)) :
    ∃ location, Opens files site.directory directive location document.nodes ∧
      (location, directive.part) ∉ site.targets ∧ site.depth < limit ∧
      inner = site.enter location directive := by
  cases opening_of_run h with
  | @opened location text number _ _ hlocate hcycle hdepth _ htext hnumber hpart =>
      refine ⟨location, ⟨hlocate, ?_⟩, cycle?_eq_none.mp hcycle, hdepth, rfl⟩
      unfold partDocument at hpart
      split at hpart
      · rename_i range hrange
        refine ⟨text, range, ?_, hrange, ?_⟩
        · rw [Files.text, ← hbefore.textAt_eq, htext]
        · rw [Files.number, hafter.number_eq hnumber, ← source_of_parseWindow hpart]
          exact hpart
      · cases hpart

end LiveDoc
