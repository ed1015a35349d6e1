import LiveDoc.Proofs.Include.Bound
import Mathlib

namespace LiveDoc

-- What nodes come to when each directive that is read from a directory stands for the nodes of
-- the part that it opens, which come to what they do in the directory of their own file.
inductive Flat (files : Files) : String → List Node → List Node → Prop
  | nil (directory : String) : Flat files directory [] []
  | prose {directory : String} {rest out : List Node} (own : Prose) :
      Flat files directory rest out → Flat files directory (.prose own :: rest) (.prose own :: out)
  | code {directory : String} {rest out : List Node} (own : CodeBlock) :
      Flat files directory rest out → Flat files directory (.code own :: rest) (.code own :: out)
  | conditional {directory : String} {children inner rest out : List Node} (guard : Calc.Guard)
      (source : String) (span : Span) :
      Flat files directory children inner → Flat files directory rest out →
      Flat files directory (.conditional guard source children span :: rest)
        (.conditional guard source inner span :: out)
  | directive {directory : String} {own : Include} {location : Location}
      {inside inner rest out : List Node} :
      Opens files directory own location inside → Flat files location.directory inside inner →
      Flat files directory rest out → Flat files directory (.directive own :: rest) (inner ++ out)

theorem anyDirective_append (front back : List Node) :
    anyDirective (front ++ back) = (anyDirective front || anyDirective back) := by
  induction front with
  | nil => rfl
  | cons node rest ih => simp only [List.cons_append, anyDirective, ih, Bool.or_assoc]

theorem not_mem_visits_of_free {nodes : List Node} (h : anyDirective nodes = false)
    (directive : Include) : .directive directive ∉ visits nodes := by
  induction nodes using nodesInduction with
  | nil => simp [visits]
  | prose own rest ih => simpa [visits, Node.visits] using ih h
  | code own rest ih => simpa [visits, Node.visits] using ih h
  | directive own rest ih => cases h
  | conditional guard source children span rest ihChildren ihRest =>
      simp only [anyDirective, Node.hasDirective, Bool.or_eq_false_iff] at h
      simpa [visits, Node.visits] using ⟨ihChildren h.1, ihRest h.2⟩

theorem Flat.free {files : Files} {directory : String} {nodes out : List Node}
    (h : Flat files directory nodes out) : anyDirective out = false := by
  induction h with
  | nil => rfl
  | prose own _ ih => exact ih
  | code own _ ih => exact ih
  | conditional guard source span _ _ ihChildren ihRest =>
      simp only [anyDirective, Node.hasDirective, ihChildren, ihRest, Bool.or_self]
  | directive _ _ _ ihInside ihRest => rw [anyDirective_append, ihInside, ihRest, Bool.or_self]

-- What nodes come to is determined by the files.
theorem Flat.unique {files : Files} {directory : String} {nodes out other : List Node}
    (h : Flat files directory nodes out) (h' : Flat files directory nodes other) : out = other := by
  induction h generalizing other with
  | nil =>
      cases h'
      rfl
  | prose own _ ih =>
      cases h' with
      | prose _ hrest => rw [ih hrest]
  | code own _ ih =>
      cases h' with
      | code _ hrest => rw [ih hrest]
  | conditional guard source span _ _ ihChildren ihRest =>
      cases h' with
      | conditional _ _ _ hchildren hrest => rw [ihChildren hchildren, ihRest hrest]
  | directive hopens _ _ ihInside ihRest =>
      cases h' with
      | directive hopens' hinside hrest =>
          obtain ⟨rfl, rfl⟩ := hopens.unique hopens'
          rw [ihInside hinside, ihRest hrest]

section Runs

variable {files : Files}

-- One level: what is put in the place of each directive is right if each answer is.
theorem flat_of_expandNodes {insert : Include → Reading (List Node)} {directory : String}
    {nodes out : List Node} {map next : SourceMap}
    (hkeeps : ∀ directive, Keeps files.tree (insert directive))
    (hinsert : ∀ directive start inner stop, files.before.Grows files.tree start →
      stop.Grows files.tree files.after → (insert directive).run start = (.ok inner, stop) →
      ∃ location inside, Opens files directory directive location inside ∧
        Flat files location.directory inside inner)
    (hbefore : files.before.Grows files.tree map) (hafter : next.Grows files.tree files.after)
    (h : (expandNodes insert nodes).run map = (.ok out, next)) : Flat files directory nodes out := by
  induction nodes using nodesInduction generalizing map next out with
  | nil =>
      cases h
      exact .nil directory
  | prose own rest ih =>
      rw [expandNodes_prose] at h
      obtain ⟨others, later, hothers, h⟩ := Action.run_bind_eq_ok h
      cases h
      exact .prose own (ih hbefore hafter hothers)
  | code own rest ih =>
      rw [expandNodes_code] at h
      obtain ⟨others, later, hothers, h⟩ := Action.run_bind_eq_ok h
      cases h
      exact .code own (ih hbefore hafter hothers)
  | directive own rest ih =>
      rw [expandNodes_directive] at h
      obtain ⟨inner, middle, hinner, h⟩ := Action.run_bind_eq_ok h
      obtain ⟨others, later, hothers, h⟩ := Action.run_bind_eq_ok h
      cases h
      have hmiddle := (hkeeps own).grows hinner
      have hrest := (keeps_expandNodes hkeeps rest).grows hothers
      obtain ⟨location, inside, hopens, hflat⟩ :=
        hinsert own map inner middle hbefore (hrest.trans hafter) hinner
      exact .directive hopens hflat (ih (hbefore.trans hmiddle) hafter hothers)
  | conditional guard source children span rest ihChildren ihRest =>
      rw [expandNodes_conditional] at h
      obtain ⟨inner, middle, hinner, h⟩ := Action.run_bind_eq_ok h
      obtain ⟨others, later, hothers, h⟩ := Action.run_bind_eq_ok h
      cases h
      have hmiddle := (keeps_expandNodes hkeeps children).grows hinner
      have hrest := (keeps_expandNodes hkeeps rest).grows hothers
      exact .conditional guard source span (ihChildren hbefore (hrest.trans hafter) hinner)
        (ihRest (hbefore.trans hmiddle) hafter hothers)

theorem flat_of_includedNodes {limit budget : Nat} {site : Site} {nodes out : List Node}
    {map next : SourceMap} (hbefore : files.before.Grows files.tree map)
    (hafter : next.Grows files.tree files.after)
    (h : (expandNodes (includedNodes files.tree limit budget site) nodes).run map =
      (.ok out, next)) : Flat files site.directory nodes out := by
  induction budget generalizing site nodes out map next with
  | zero =>
      refine flat_of_expandNodes (keeps_includedNodes files.tree limit 0 site) ?_ hbefore hafter h
      intro directive start inner stop _ _ hrun
      cases hrun
  | succ budget ih =>
      refine flat_of_expandNodes (keeps_includedNodes files.tree limit (budget + 1) site) ?_ hbefore
        hafter h
      intro directive start inner stop hstart hstop hrun
      obtain ⟨⟨document, own⟩, middle, hopen, hrun⟩ := Action.run_bind_eq_ok hrun
      have hinside := (keeps_expandNodes
        (keeps_includedNodes files.tree limit budget own) document.nodes).grows hrun
      obtain ⟨location, hopens, -, -, rfl⟩ := openInclude_eq_ok hstart (hinside.trans hstop) hopen
      exact ⟨location, document.nodes, hopens,
        ih (hstart.trans (keeps_openInclude.grows hopen)) hstop hrun⟩

end Runs

-- Nodes without directives are left as they are.
theorem expandNodes_of_free {insert : Include → Reading (List Node)} {nodes : List Node}
    (h : anyDirective nodes = false) : expandNodes insert nodes = pure nodes := by
  induction nodes using nodesInduction with
  | nil => simp [expandNodes]
  | prose own rest ih => rw [expandNodes_prose, ih h, pure_bind]
  | code own rest ih => rw [expandNodes_code, ih h, pure_bind]
  | directive own rest ih => cases h
  | conditional guard source children span rest ihChildren ihRest =>
      simp only [anyDirective, Node.hasDirective, Bool.or_eq_false_iff] at h
      rw [expandNodes_conditional, ihChildren h.1, ihRest h.2, pure_bind, pure_bind]

theorem run_resolve_of_free {document : Document} (h : document.hasDirectives = false)
    (tree : FileTree) (limit : Nat) (directory : String) (map : SourceMap) :
    (resolve tree limit directory document).run map = (.ok document, map) := by
  rw [run_resolve, expandNodes_of_free h]
  rfl

-- What a run accepts is flattened, and is left as it is from then on: nothing more is read for
-- it, from whatever directory.
theorem flat_of_resolve {tree : FileTree} {limit : Nat} {directory : String}
    {document out : Document} {map next : SourceMap}
    (h : (resolve tree limit directory document).run map = (.ok out, next)) :
    out.hasDirectives = false ∧ out.source = document.source ∧
      Flat ⟨tree, map, next⟩ directory document.nodes out.nodes ∧
      ∀ again limit' directory' later,
        (resolve again limit' directory' out).run later = (.ok out, later) := by
  rw [run_resolve] at h
  obtain ⟨nodes, middle, hnodes, hpure⟩ := Action.run_bind_eq_ok h
  cases hpure
  have hflat := @flat_of_includedNodes ⟨tree, map, next⟩ _ _ _ _ _ _ _ (.refl map) (.refl next) hnodes
  have hfree : Document.hasDirectives { document with nodes } = false := hflat.free
  exact ⟨hfree, rfl, hflat, run_resolve_of_free hfree⟩

-- A file in a directory that asks for a section of a file next to it. The text before the
-- section and the file of that name in the directory of the run are left out.
def nested : FileTree :=
  ⟨[(["b", "p"], .file "B\n!include c#S\n".toUTF8), (["c", "p"], .file "no\n# S\nC".toUTF8),
    (["c"], .file "no".toUTF8)], []⟩

def nestedStart : SourceMap := SourceMap.empty.push ⟨"a", none, "!if true\n!include p/b\n!endif\n"⟩

def nestedRoot : Document := ⟨0,
  [.conditional ⟨.bool true, rfl⟩ "true" [.directive ⟨"p/b", none, ⟨0, ⟨9, 21⟩, 2⟩⟩]
    ⟨0, ⟨0, 8⟩, 1⟩]⟩

def nestedFile : Source := ⟨"p/b", some ["b", "p"], "B\n!include c#S\n"⟩

def nestedPart : Source := ⟨"/p/c", some ["c", "p"], "no\n# S\nC"⟩

def nestedInclude : Include := ⟨"c", some "S", ⟨1, ⟨2, 14⟩, 2⟩⟩

theorem blocks_nestedFile : Markdown.blocks (Text.slice nestedFile.text.toList 0
    (Text.byteCount nestedFile.text.toList)) = ([], []) := by
  cbv

theorem blocks_nestedPart : Markdown.blocks (Text.slice nestedPart.text.toList 3 8) =
    ([.heading 0 1 "S".toList], []) := by
  cbv

theorem parse_nestedFile : partDocument 1 nestedFile.text "p/b" ⟨"p/b", none, ⟨0, ⟨9, 21⟩, 2⟩⟩ =
    .ok ⟨1, [.prose ⟨"B\n", ⟨1, ⟨0, 2⟩, 1⟩⟩, .directive nestedInclude]⟩ := by
  have hsegments : segments nestedFile.text.toList
      ⟨0, Text.byteCount nestedFile.text.toList⟩ = [.prose 0 "B\n".toList,
        .mark 2 "!include c#S\n".toList ⟨.insert, "!include ".toList, "c#S".toList⟩] := by
    rw [segments, regions, blocks_nestedFile]
    decide +kernel
  rw [partDocument, partRange?]
  dsimp only
  rw [parseWindow, hsegments]
  cbv

theorem parse_nestedPart : partDocument 2 nestedPart.text "/p/c" nestedInclude =
    .ok ⟨2, [.prose ⟨"# S\nC", ⟨2, ⟨3, 8⟩, 2⟩⟩]⟩ := by
  have hrange : partRange? nestedPart.text nestedInclude.part = some ⟨3, 8⟩ := by cbv
  have hsegments : segments nestedPart.text.toList ⟨3, 8⟩ = [.prose 3 "# S\nC".toList] := by
    rw [segments, regions, blocks_nestedPart]
    decide +kernel
  rw [partDocument, hrange]
  dsimp only
  rw [parseWindow, hsegments]
  cbv

def nestedFileSite : Site := ⟨"/p", [⟨["b", "p"], none, "p/b"⟩], 1⟩

def nestedLoaded : SourceMap := nestedStart.push nestedFile

def nestedEnd : SourceMap := nestedLoaded.push nestedPart

theorem open_nestedFile :
    (openInclude nested 2 ⟨"", [], 0⟩ ⟨"p/b", none, ⟨0, ⟨9, 21⟩, 2⟩⟩).run nestedStart =
      (.ok (⟨1, [.prose ⟨"B\n", ⟨1, ⟨0, 2⟩, 1⟩⟩, .directive nestedInclude]⟩, nestedFileSite),
        nestedLoaded) := by
  have hlocate : nested.locate (Path.join "" "p/b") = .ok ["b", "p"] := by cbv
  have hnew : nestedStart.idAt? ["b", "p"] = none := by cbv
  have htext : nested.textAt ["b", "p"] = .ok nestedFile.text := by cbv
  have hpath : Path.join "" "p/b" = "p/b" := by cbv
  have hload : nestedStart.load nested (Path.join "" "p/b") = .ok (1, nestedLoaded) := by
    have hread := SourceMap.read_of_new hlocate hnew htext
    rw [hpath] at hread ⊢
    exact SourceMap.load_of_read_eq_ok hread
  have hsite : nestedFileSite = Site.enter ⟨"", [], 0⟩ ["b", "p"]
      ⟨"p/b", none, ⟨0, ⟨9, 21⟩, 2⟩⟩ := by cbv
  rw [hsite]
  refine run_openInclude hlocate rfl Nat.two_pos hload ?_
  dsimp only
  rw [hpath]
  exact parse_nestedFile

theorem open_nestedPart : (openInclude nested 2 nestedFileSite nestedInclude).run nestedLoaded =
    (.ok (⟨2, [.prose ⟨"# S\nC", ⟨2, ⟨3, 8⟩, 2⟩⟩]⟩,
      nestedFileSite.enter ["c", "p"] nestedInclude), nestedEnd) := by
  have hlocate : nested.locate (Path.join "/p" "c") = .ok ["c", "p"] := by cbv
  have hnew : nestedLoaded.idAt? ["c", "p"] = none := by cbv
  have htext : nested.textAt ["c", "p"] = .ok nestedPart.text := by cbv
  have hpath : Path.join "/p" "c" = "/p/c" := by cbv
  have hload : nestedLoaded.load nested (Path.join "/p" "c") = .ok (2, nestedEnd) := by
    have hread := SourceMap.read_of_new hlocate hnew htext
    rw [hpath] at hread ⊢
    exact SourceMap.load_of_read_eq_ok hread
  refine run_openInclude hlocate (by cbv) Nat.one_lt_two hload ?_
  rw [show Path.join nestedFileSite.directory nestedInclude.path = "/p/c" from hpath]
  exact parse_nestedPart

def nestedFlat : Document := ⟨0,
  [.conditional ⟨.bool true, rfl⟩ "true"
    [.prose ⟨"B\n", ⟨1, ⟨0, 2⟩, 1⟩⟩, .prose ⟨"# S\nC", ⟨2, ⟨3, 8⟩, 2⟩⟩] ⟨0, ⟨0, 8⟩, 1⟩]⟩

theorem run_nested :
    (resolve nested 2 "" nestedRoot).run nestedStart = (.ok nestedFlat, nestedEnd) := by
  have hpart : (includedNodes nested 2 2 nestedFileSite nestedInclude).run nestedLoaded =
      (.ok [.prose ⟨"# S\nC", ⟨2, ⟨3, 8⟩, 2⟩⟩], nestedEnd) := by
    rw [includedNodes, Action.run_bind_of_ok open_nestedPart]
    rfl
  have hfile : (includedNodes nested 2 3 ⟨"", [], 0⟩ ⟨"p/b", none, ⟨0, ⟨9, 21⟩, 2⟩⟩).run
      nestedStart = (.ok [.prose ⟨"B\n", ⟨1, ⟨0, 2⟩, 1⟩⟩, .prose ⟨"# S\nC", ⟨2, ⟨3, 8⟩, 2⟩⟩],
        nestedEnd) := by
    rw [includedNodes, Action.run_bind_of_ok open_nestedFile]
    dsimp only
    rw [expandNodes_prose, expandNodes_directive, Action.run_bind_of_ok]
    · rfl
    · rw [Action.run_bind_of_ok hpart]
      rfl
  have hsite : rootSite nestedStart "" nestedRoot = ⟨"", [], 0⟩ := rfl
  rw [run_resolve, hsite, nestedRoot, Action.run_bind_of_ok]
  · rfl
  · rw [expandNodes_conditional, Action.run_bind_of_ok]
    · rfl
    · rw [expandNodes_directive, Action.run_bind_of_ok hfile]
      rfl

theorem flat_nested :
    (resolve nested 2 "" nestedRoot).run nestedStart = (.ok nestedFlat, nestedEnd) ∧
      Flat ⟨nested, nestedStart, nestedEnd⟩ "" nestedRoot.nodes nestedFlat.nodes ∧
      (resolve nested 0 "/" nestedFlat).run nestedEnd = (.ok nestedFlat, nestedEnd) := by
  obtain ⟨-, -, hflat, hagain⟩ := flat_of_resolve run_nested
  exact ⟨run_nested, hflat, hagain nested 0 "/" nestedEnd⟩

end LiveDoc
