import LiveDoc.Proofs.Include.Bound
import Mathlib

namespace LiveDoc

-- A directive that a run comes to below the includes of a chain, and the target that it names.
def Asks (files : Files) (directory : String) (nodes : List Node) (chain : List Included)
    (directive : Include) (target : Target) : Prop :=
  ∃ place location, Reached files directory nodes chain place directive ∧
    files.tree.locate (Path.join place directive.path) = .ok location ∧
    target = (location, directive.part)

-- How a run on a document ends, as far as its includes repeat and nest. The document itself, if
-- it is a file, is the first of the includes around each directive, but no level of its own.
structure Detection (files : Files) (limit : Nat) (directory : String) (document : Document)
    (result : Except DocumentError Document) : Prop where
  circular : ∀ labels span, result = .error (.circular labels span) →
    ∃ chain directive target front entry back,
      Asks files directory document.nodes chain directive target ∧ directive.span = span ∧
      rootsOf files.before document ++ chain = front ++ entry :: back ∧
      entry.target = target ∧ target ∉ front.map Included.target ∧
      labels = (entry :: back).map (·.label) ++ [directive.label]
  tooDeep : ∀ bound span, result = .error (.tooDeep bound span) →
    bound = limit ∧ ∃ chain directive target,
      Asks files directory document.nodes chain directive target ∧ directive.span = span ∧
      chain.length = limit ∧
      ((rootsOf files.before document ++ chain).map Included.target ++ [target]).Nodup
  repeated : ∀ chain directive target, Asks files directory document.nodes chain directive target →
    target ∈ (rootsOf files.before document ++ chain).map Included.target →
    ∀ out, result ≠ .ok out
  beyond : ∀ chain directive target, Asks files directory document.nodes chain directive target →
    limit ≤ chain.length → ∀ out, result ≠ .ok out
  innocent : (∀ chain directive target, Asks files directory document.nodes chain directive target →
      target ∉ (rootsOf files.before document ++ chain).map Included.target) →
    ∀ labels span, result ≠ .error (.circular labels span)

section Runs

variable {tree : FileTree} {limit : Nat} {directory : String} {document : Document}
  {map next : SourceMap}

theorem fits_rootSite (tree : FileTree) (map : SourceMap) (directory : String)
    (document : Document) : (rootSite map directory document).Fits limit where
  distinct := (known_rootSite tree map directory document).distinct
  within := Nat.zero_le limit

-- A run fails where the directive that it comes to last cannot be opened.
theorem resolve_eq_error {e : DocumentError}
    (h : (resolve tree limit directory document).run map = (.error e, next)) :
    ∃ chain place directive middle,
      Reached ⟨tree, map, next⟩ directory document.nodes chain place directive ∧
      ((rootSite map directory document).below chain place).Fits limit ∧
      (openInclude tree limit ((rootSite map directory document).below chain place)
        directive).run middle = (.error e, next) := by
  rw [run_resolve] at h
  rcases Action.run_bind_eq_error h with h | ⟨_, _, _, h⟩
  · exact @expandNodes_includedNodes_eq_error ⟨tree, map, next⟩ _ _ _ _ _ _ _
      (fits_rootSite tree map directory document) (by simp [rootSite]) (.refl map) (.refl next) h
  · cases h

-- A run succeeds only if each directive that it can come to is opened.
theorem resolve_eq_ok {out : Document}
    (h : (resolve tree limit directory document).run map = (.ok out, next))
    {chain : List Included} {directive : Include} {target : Target}
    (hasks : Asks ⟨tree, map, next⟩ directory document.nodes chain directive target) :
    target ∉ (rootsOf map document ++ chain).map Included.target ∧ chain.length < limit := by
  rw [run_resolve] at h
  obtain ⟨nodes, middle, h, hpure⟩ := Action.run_bind_eq_ok h
  cases hpure
  obtain ⟨place, location, hreached, hlocate, rfl⟩ := hasks
  obtain ⟨other, inside, hopens, hnew, hdepth⟩ :=
    opens_of_reached hreached rfl (.refl map) (.refl next) h
  cases hlocate.symm.trans hopens.located
  exact ⟨hnew, by simpa [rootSite] using hdepth⟩

theorem circular_of_resolve {labels : List String} {span : Span}
    (h : (resolve tree limit directory document).run map =
      (.error (.circular labels span), next)) :
    ∃ chain directive target front entry back,
      Asks ⟨tree, map, next⟩ directory document.nodes chain directive target ∧
      directive.span = span ∧ rootsOf map document ++ chain = front ++ entry :: back ∧
      entry.target = target ∧ target ∉ front.map Included.target ∧
      labels = (entry :: back).map (·.label) ++ [directive.label] := by
  obtain ⟨chain, place, directive, middle, hreached, -, hrun⟩ := resolve_eq_error h
  obtain ⟨rfl, location, own, hlocate, hcycle, rfl⟩ := openInclude_eq_circular hrun
  obtain ⟨front, entry, back, hopened, hentry, hfront, rfl⟩ := cycle?_eq_some hcycle
  exact ⟨chain, directive, _, front, entry, back, ⟨place, location, hreached, hlocate, rfl⟩, rfl,
    hopened, hentry, hfront, rfl⟩

theorem tooDeep_of_resolve {bound : Nat} {span : Span}
    (h : (resolve tree limit directory document).run map =
      (.error (.tooDeep bound span), next)) :
    bound = limit ∧ ∃ chain directive target,
      Asks ⟨tree, map, next⟩ directory document.nodes chain directive target ∧
      directive.span = span ∧ chain.length = limit ∧
      ((rootsOf map document ++ chain).map Included.target ++ [target]).Nodup := by
  obtain ⟨chain, place, directive, middle, hreached, hfits, hrun⟩ := resolve_eq_error h
  obtain ⟨rfl, rfl, hdepth, location, hlocate, hnew⟩ := openInclude_eq_tooDeep hrun
  refine ⟨rfl, chain, directive, _, ⟨place, location, hreached, hlocate, rfl⟩, rfl, ?_, ?_⟩
  · have hwithin := hfits.within
    simp only [Site.below, rootSite, Nat.zero_add] at hdepth hwithin
    exact Nat.le_antisymm hwithin hdepth
  · rw [← List.concat_eq_append]
    exact hfits.distinct.concat hnew

end Runs

-- Circles and limits are found exactly, and no run goes on for ever: the files give a number of
-- levels that no larger limit changes.
theorem detection_of_resolve (tree : FileTree) (map : SourceMap) (directory : String)
    (document : Document) :
    (∃ bound, ∀ limit, bound ≤ limit → (resolve tree limit directory document).run map =
      (resolve tree bound directory document).run map) ∧
    ∀ limit, Detection ⟨tree, map, ((resolve tree limit directory document).run map).2⟩ limit
      directory document ((resolve tree limit directory document).run map).1 := by
  refine ⟨⟨_, fun limit => run_resolve_of_bound_le⟩, fun limit => ?_⟩
  rcases hrun : (resolve tree limit directory document).run map with ⟨result, next⟩
  refine ⟨?_, ?_, ?_, ?_, ?_⟩
  · rintro labels span rfl
    exact circular_of_resolve hrun
  · rintro bound span rfl
    exact tooDeep_of_resolve hrun
  · rintro chain directive target hasks hmem out rfl
    exact (resolve_eq_ok hrun hasks).1 hmem
  · rintro chain directive target hasks hlimit out rfl
    exact Nat.not_le_of_lt (resolve_eq_ok hrun hasks).2 hlimit
  · rintro hnever labels span rfl
    obtain ⟨chain, directive, target, front, entry, back, hasks, -, hopened, rfl, -⟩ :=
      circular_of_resolve hrun
    refine hnever chain directive _ hasks ?_
    rw [hopened, List.map_append, List.map_cons]
    exact List.mem_append_right _ List.mem_cons_self

-- A file that includes itself.
def turning : FileTree := ⟨[(["a"], .file "!include a".toUTF8)], []⟩

def turningStart : SourceMap := SourceMap.empty.push ⟨"a", some ["a"], "!include a"⟩

def turningRoot : Document := ⟨0, [.directive ⟨"a", none, ⟨0, ⟨0, 10⟩, 1⟩⟩]⟩

theorem run_turning : ((resolve turning 50 "" turningRoot).run turningStart).1 =
    .error (.circular ["a", "a"] ⟨0, ⟨0, 10⟩, 1⟩) := by
  cbv

theorem detection_turning : ∃ chain directive target front entry back,
    Asks ⟨turning, turningStart, ((resolve turning 50 "" turningRoot).run turningStart).2⟩ ""
      turningRoot.nodes chain directive target ∧
    directive.span = ⟨0, ⟨0, 10⟩, 1⟩ ∧
    rootsOf turningStart turningRoot ++ chain = front ++ entry :: back ∧
    entry.target = target ∧ target ∉ front.map Included.target ∧
    ["a", "a"] = (entry :: back).map (·.label) ++ [directive.label] :=
  ((detection_of_resolve turning turningStart "" turningRoot).2 50).circular _ _ run_turning

end LiveDoc
