import LiveDoc.Proofs.Include.Opening

namespace LiveDoc

-- A directive that a run can come to, with the includes around it, the outermost first, and the
-- directory that it is read from.
inductive Reached (files : Files) :
    String → List Node → List Included → String → Include → Prop
  | own {directory : String} {nodes : List Node} {directive : Include} :
      .directive directive ∈ visits nodes → Reached files directory nodes [] directory directive
  | inner {directory place : String} {nodes inside : List Node} {outer directive : Include}
      {location : Location} {chain : List Included} :
      .directive outer ∈ visits nodes → Opens files directory outer location inside →
      Reached files location.directory inside chain place directive →
      Reached files directory nodes (⟨location, outer.part, outer.label⟩ :: chain) place directive

section Runs

variable {files : Files} {limit budget : Nat} {site : Site} {nodes : List Node}
  {map next : SourceMap}

theorem keeps_includedNodes (tree : FileTree) (limit budget : Nat) (site : Site)
    (directive : Include) : Keeps tree (includedNodes tree limit budget site directive) := by
  induction budget generalizing site directive with
  | zero => exact fun map => .refl map
  | succ budget ih =>
      exact keeps_openInclude.bind fun opened => keeps_expandNodes (ih opened.2) opened.1.nodes

-- The site of a directive below a site, where the includes of a chain lie between them.
def Site.below (site : Site) (chain : List Included) (place : String) : Site :=
  ⟨place, site.opened ++ chain, site.depth + chain.length⟩

theorem below_enter (site : Site) (location : Location) (directive : Include)
    (chain : List Included) (place : String) :
    (site.enter location directive).below chain place =
      site.below (⟨location, directive.part, directive.label⟩ :: chain) place := by
  simp only [Site.below, Site.enter, List.append_assoc, List.singleton_append, List.length_cons,
    Nat.add_assoc, Nat.add_comm 1]

theorem below_nil (site : Site) : site.below [] site.directory = site := by
  simp [Site.below]

-- A site where nothing is opened twice and the limit is kept.
structure Site.Fits (site : Site) (limit : Nat) : Prop where
  distinct : (site.targets).Nodup
  within : site.depth ≤ limit

theorem Site.Fits.enter {location : Location} {directive : Include} (h : site.Fits limit)
    (hnew : (location, directive.part) ∉ site.targets)
    (hdepth : site.depth < limit) : (site.enter location directive).Fits limit where
  distinct := nodup_targets_enter h.distinct hnew
  within := hdepth

-- A run fails where a directive that it comes to cannot be opened. The budget is never what
-- fails, because the limit is met before.
theorem expandNodes_includedNodes_eq_error {e : DocumentError} (hfits : site.Fits limit)
    (hbudget : limit < site.depth + budget) (hbefore : files.before.Grows files.tree map)
    (hafter : next.Grows files.tree files.after)
    (h : (expandNodes (includedNodes files.tree limit budget site) nodes).run map =
      (.error e, next)) :
    ∃ chain place directive middle, Reached files site.directory nodes chain place directive ∧
      (site.below chain place).Fits limit ∧
      (openInclude files.tree limit (site.below chain place) directive).run middle =
        (.error e, next) := by
  induction budget generalizing site nodes map with
  | zero =>
      have := hfits.within
      omega
  | succ budget ih =>
      obtain ⟨outer, start, hmem, hstart, hrun⟩ :=
        expandNodes_eq_error (keeps_includedNodes files.tree limit (budget + 1) site) h
      rcases Action.run_bind_eq_error hrun with hrun | ⟨⟨document, inner⟩, middle, hopen, hrun⟩
      · exact ⟨[], site.directory, outer, start, .own hmem, by rwa [below_nil],
          by rwa [below_nil]⟩
      · have hopened := keeps_openInclude.grows hopen
        have hinside := (keeps_expandNodes
          (keeps_includedNodes files.tree limit budget inner) document.nodes).grows hrun
        obtain ⟨location, hopens, hnew, hdepth, rfl⟩ :=
          openInclude_eq_ok (hbefore.trans hstart) (hinside.trans hafter) hopen
        obtain ⟨chain, place, directive, stop, hreached, hbelow, herror⟩ :=
          ih (hfits.enter hnew hdepth) (by simp only [Site.enter]; omega)
            ((hbefore.trans hstart).trans hopened) hrun
        rw [below_enter] at hbelow herror
        exact ⟨_, place, directive, stop, .inner hmem hopens hreached, hbelow, herror⟩

-- Where a run does not fail, each directive is opened and what is inside does not fail either.
theorem exists_opened_of_ok {out : List Node} {directive : Include}
    (hmem : .directive directive ∈ visits nodes) (hbefore : files.before.Grows files.tree map)
    (hafter : next.Grows files.tree files.after)
    (h : (expandNodes (includedNodes files.tree limit budget site) nodes).run map =
      (.ok out, next)) :
    ∃ location inside, Opens files site.directory directive location inside ∧
      (location, directive.part) ∉ site.targets ∧ site.depth < limit ∧
      ∃ budget start inner stop, files.before.Grows files.tree start ∧
        stop.Grows files.tree files.after ∧
        (expandNodes (includedNodes files.tree limit budget (site.enter location directive))
          inside).run start = (.ok inner, stop) := by
  obtain ⟨start, inner, stop, hstart, hrun, hstop⟩ :=
    expandNodes_eq_ok (keeps_includedNodes files.tree limit budget site) h hmem
  cases budget with
  | zero => cases hrun
  | succ budget =>
      obtain ⟨⟨document, own⟩, middle, hopen, hrun⟩ := Action.run_bind_eq_ok hrun
      have hinside := (keeps_expandNodes
        (keeps_includedNodes files.tree limit budget own) document.nodes).grows hrun
      obtain ⟨location, hopens, hnew, hdepth, rfl⟩ := openInclude_eq_ok (hbefore.trans hstart)
        (hinside.trans (hstop.trans hafter)) hopen
      exact ⟨location, document.nodes, hopens, hnew, hdepth, budget, middle, inner, stop,
        (hbefore.trans hstart).trans (keeps_openInclude.grows hopen), hstop.trans hafter, hrun⟩

-- Then it has opened every directive that it can come to.
theorem opens_of_reached {out : List Node} {directory place : String} {chain : List Included}
    {directive : Include} (hreached : Reached files directory nodes chain place directive)
    (hdirectory : site.directory = directory) (hbefore : files.before.Grows files.tree map)
    (hafter : next.Grows files.tree files.after)
    (h : (expandNodes (includedNodes files.tree limit budget site) nodes).run map =
      (.ok out, next)) :
    ∃ location inside, Opens files place directive location inside ∧
      (location, directive.part) ∉ (site.opened ++ chain).map Included.target ∧
      site.depth + chain.length < limit := by
  induction hreached generalizing budget site map next out with
  | own hmem =>
      subst hdirectory
      obtain ⟨location, inside, hopens, hnew, hdepth, _⟩ :=
        exists_opened_of_ok hmem hbefore hafter h
      exact ⟨location, inside, hopens, by rwa [List.append_nil], hdepth⟩
  | inner hmem hopens _ ih =>
      subst hdirectory
      obtain ⟨location, inside, hown, -, -, budget, start, inner, stop, hstart, hstop, hrun⟩ :=
        exists_opened_of_ok hmem hbefore hafter h
      obtain ⟨rfl, rfl⟩ := hopens.unique hown
      obtain ⟨place, nodes, hopens, hnew, hdepth⟩ := ih rfl hstart hstop hrun
      refine ⟨place, nodes, hopens, ?_, ?_⟩
      · simpa [Site.enter] using hnew
      · simp only [Site.enter, List.length_cons] at hdepth ⊢
        omega

end Runs

end LiveDoc
