import LiveDoc.Proofs.Include.Chain
import Mathlib.Data.List.Perm.Subperm
import Mathlib.Data.List.ProdSigma

namespace LiveDoc

-- The include that stands for the document a run starts from, if that is a file.
def rootsOf (map : SourceMap) (document : Document) : List Included :=
  match map.location? document.source with
  | some location => [⟨location, none, map.name document.source⟩]
  | none => []

def rootSite (map : SourceMap) (directory : String) (document : Document) : Site :=
  ⟨directory, rootsOf map document, 0⟩

section Parts

variable {tree : FileTree} {map : SourceMap} {nodes : List Node} {directive : Include}

def Visit.part? : Visit → Option (Option String)
  | .directive directive => some directive.part
  | _ => none

-- The parts that the marks of a text can name, in whatever range of it is included.
def partsIn (text : String) : List (Option String) :=
  let whole : ByteRange := ⟨0, Text.byteCount text.toList⟩
  (whole :: (sections text.toList).map (·.range)).flatMap fun range =>
    (segments text.toList range).filterMap Segment.part?

def partsAt (map : SourceMap) (tree : FileTree) (location : Location) : List (Option String) :=
  match map.textAt tree location with
  | .ok text => partsIn text
  | .error _ => []

-- All parts that a run on some nodes can come to, and all targets.
def partsOf (map : SourceMap) (tree : FileTree) (nodes : List Node) : List (Option String) :=
  none :: ((visits nodes).filterMap Visit.part? ++ (map.readable tree).flatMap (partsAt map tree))

def targetsOf (map : SourceMap) (tree : FileTree) (nodes : List Node) : List Target :=
  map.readable tree ×ˢ partsOf map tree nodes

theorem part_mem_partsOf (h : .directive directive ∈ visits nodes) :
    directive.part ∈ partsOf map tree nodes :=
  List.mem_cons_of_mem _ (List.mem_append_left _ (List.mem_filterMap.mpr ⟨_, h, rfl⟩))

theorem mem_ranges_of_partRange? {text : String} {part : Option String} {range : ByteRange}
    (h : partRange? text part = some range) :
    range ∈ ⟨0, Text.byteCount text.toList⟩ :: (sections text.toList).map (·.range) := by
  cases part with
  | none =>
      cases h
      exact List.mem_cons_self ..
  | some name =>
      obtain ⟨hit, hfound, rfl⟩ := Option.map_eq_some_iff.mp h
      refine List.mem_cons_of_mem _ (List.mem_map_of_mem ?_)
      unfold findSection? at hfound
      dsimp only at hfound
      split at hfound
      · cases hfound
        rename_i hfound
        exact List.mem_of_find?_eq_some hfound
      · exact List.mem_of_find?_eq_some hfound

-- What is opened is a target, and the directives in it name such parts again.
theorem Opens.mem_targetsOf {files : Files} {directory : String} {location : Location}
    {inside : List Node} (h : Opens files directory directive location inside)
    (hpart : directive.part ∈ partsOf files.before files.tree nodes) :
    (location, directive.part) ∈ targetsOf files.before files.tree nodes := by
  obtain ⟨text, range, htext, _⟩ := h.parsed
  exact List.mem_product.mpr ⟨SourceMap.mem_readable_of_textAt htext, hpart⟩

theorem Opens.part_mem_partsOf {files : Files} {directory : String} {location : Location}
    {inside : List Node} (h : Opens files directory directive location inside) {own : Include}
    (hown : .directive own ∈ visits inside) :
    own.part ∈ partsOf files.before files.tree nodes := by
  obtain ⟨text, range, htext, hrange, hparse⟩ := h.parsed
  obtain ⟨segment, hsegment, hpart⟩ := part_of_parseWindow hparse hown
  refine List.mem_cons_of_mem _ (List.mem_append_right _ (List.mem_flatMap.mpr
    ⟨location, SourceMap.mem_readable_of_textAt htext, ?_⟩))
  unfold partsAt
  rw [show files.before.textAt files.tree location = .ok text from htext]
  exact List.mem_flatMap.mpr ⟨range, mem_ranges_of_partRange? hrange,
    List.mem_filterMap.mpr ⟨segment, hsegment, hpart⟩⟩

end Parts

-- Where a limit is not met, its value does not matter.
theorem openInclude_of_lt {tree : FileTree} {limit limit' : Nat} {site : Site} {directive : Include}
    (h : site.depth < limit) (h' : site.depth < limit') :
    openInclude tree limit site directive = openInclude tree limit' site directive := by
  unfold openInclude
  simp only [Nat.not_le_of_lt h, Nat.not_le_of_lt h', if_false]

-- A site that a run on some nodes can come to: it has opened distinct targets of the run.
structure Site.Known (site : Site) (targets : List Target) : Prop where
  distinct : (site.targets).Nodup
  subset : site.targets ⊆ targets
  depth : site.depth ≤ site.opened.length

theorem Site.Known.length_le {site : Site} {targets : List Target} (h : site.Known targets) :
    site.opened.length ≤ targets.length := by
  have := (h.distinct.subperm h.subset).length_le
  rwa [Site.targets, List.length_map] at this

theorem Site.Known.enter {site : Site} {targets : List Target} {location : Location}
    {directive : Include} (h : site.Known targets)
    (hnew : (location, directive.part) ∉ site.targets)
    (hmem : (location, directive.part) ∈ targets) : (site.enter location directive).Known targets where
  distinct := nodup_targets_enter h.distinct hnew
  subset := by
    rw [targets_enter]
    exact List.append_subset.mpr ⟨h.subset, by simpa using hmem⟩
  depth := by
    have := h.depth
    simp only [Site.enter, List.length_append, List.length_singleton]
    omega

-- The induction is on the budget. As the targets that a site has opened are distinct, there are
-- no more of them than the run has, so budgets and limits beyond that number are never used up.
theorem run_includedNodes_eq {tree : FileTree} {start map : SourceMap} {all nodes : List Node}
    {limit limit' budget budget' : Nat} {site : Site}
    (hlimit : (targetsOf start tree all).length < limit)
    (hlimit' : (targetsOf start tree all).length < limit')
    (hbudget : (targetsOf start tree all).length < site.opened.length + budget)
    (hbudget' : (targetsOf start tree all).length < site.opened.length + budget')
    (hsite : site.Known (targetsOf start tree all)) (hgrows : start.Grows tree map)
    (hparts : ∀ directive, .directive directive ∈ visits nodes →
      directive.part ∈ partsOf start tree all) :
    (expandNodes (includedNodes tree limit budget site) nodes).run map =
      (expandNodes (includedNodes tree limit' budget' site) nodes).run map := by
  induction budget generalizing budget' site nodes map with
  | zero =>
      have := hsite.length_le
      omega
  | succ budget ih =>
      have hlength := hsite.length_le
      have hdepth := hsite.depth
      cases budget' with
      | zero => omega
      | succ budget' =>
          refine run_expandNodes_congr (keeps_includedNodes tree limit (budget + 1) site)
            fun directive middle hmem hmiddle => ?_
          have hopen := @openInclude_of_lt tree limit limit' site directive (by omega) (by omega)
          refine Action.run_bind_congr (by rw [hopen]) fun ⟨document, inner⟩ later hrun => ?_
          have hlater := (hgrows.trans hmiddle).trans (keeps_openInclude.grows hrun)
          obtain ⟨location, hopens, hnew, -, rfl⟩ :=
            @openInclude_eq_ok ⟨tree, start, later⟩ _ _ _ _ _ _ _ (hgrows.trans hmiddle)
              (.refl later) hrun
          refine ih ?_ ?_ (hsite.enter hnew (hopens.mem_targetsOf (hparts directive hmem))) hlater
            fun own hown => hopens.part_mem_partsOf hown
          · simp only [Site.enter, List.length_append, List.length_singleton]
            omega
          · simp only [Site.enter, List.length_append, List.length_singleton]
            omega

theorem known_rootSite (tree : FileTree) (map : SourceMap) (directory : String)
    (document : Document) :
    (rootSite map directory document).Known (targetsOf map tree document.nodes) := by
  unfold rootSite rootsOf
  split
  · rename_i location hlocation
    refine ⟨List.nodup_singleton _, ?_, Nat.zero_le _⟩
    have hplace : location ∈ map.readable tree := by
      obtain ⟨source, hsource, hat⟩ := Option.bind_eq_some_iff.mp hlocation
      exact List.mem_append_right _
        (List.mem_filterMap.mpr ⟨source, List.mem_of_getElem? hsource, hat⟩)
    have hmem : (location, none) ∈ targetsOf map tree document.nodes :=
      List.mem_product.mpr ⟨hplace, List.mem_cons_self⟩
    simpa [Site.targets, Included.target] using hmem
  · exact ⟨List.nodup_nil, List.nil_subset _, Nat.le_refl 0⟩

theorem run_resolve (tree : FileTree) (limit : Nat) (directory : String) (document : Document)
    (map : SourceMap) :
    (resolve tree limit directory document).run map =
      ((expandNodes (includedNodes tree limit (limit + 1) (rootSite map directory document))
        document.nodes) >>= fun nodes => pure { document with nodes }).run map := by
  unfold resolve
  rw [Action.run_bind_of_ok (Action.run_get map)]
  rfl

-- However large a limit is, the run is the one with a limit that the files themselves give.
theorem run_resolve_of_bound_le {tree : FileTree} {limit : Nat} {directory : String}
    {document : Document} {map : SourceMap}
    (h : (targetsOf map tree document.nodes).length + 1 ≤ limit) :
    (resolve tree limit directory document).run map =
      (resolve tree ((targetsOf map tree document.nodes).length + 1) directory document).run map := by
  rw [run_resolve, run_resolve]
  refine Action.run_bind_congr ?_ fun _ _ _ => rfl
  refine run_includedNodes_eq (by omega) (by omega) (by omega) (by omega)
    (known_rootSite tree map directory document) (.refl map) fun directive hmem =>
      part_mem_partsOf hmem

end LiveDoc
