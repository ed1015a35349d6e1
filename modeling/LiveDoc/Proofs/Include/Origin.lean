import LiveDoc.Proofs.Document.Contents
import LiveDoc.Proofs.Include.Positions

namespace LiveDoc

-- A block that stands in the registered text that its span names.
def CodeBlock.StandsIn (block : CodeBlock) (map : SourceMap) : Prop :=
  ∃ source, map.get? block.span.source = some source ∧ block.Stands source.text.toList

-- All blocks of some nodes do.
def AllStand (nodes : List Node) (map : SourceMap) : Prop :=
  ∀ block, .code block ∈ visits nodes → block.StandsIn map

section AllStand

variable {nodes rest : List Node} {map next : SourceMap}

theorem CodeBlock.StandsIn.later {block : CodeBlock} (h : block.StandsIn map)
    (hlater : map.sources <+: next.sources) : block.StandsIn next := by
  obtain ⟨source, hsource, hstands⟩ := h
  exact ⟨source, SourceMap.get?_of_prefix hlater hsource, hstands⟩

theorem AllStand.later (h : AllStand nodes map) (hlater : map.sources <+: next.sources) :
    AllStand nodes next := fun block hblock => (h block hblock).later hlater

theorem allStand_append :
    AllStand (nodes ++ rest) map ↔ AllStand nodes map ∧ AllStand rest map := by
  simp only [AllStand, visits_append, List.mem_append, or_imp, forall_and]

theorem allStand_prose {own : Prose} :
    AllStand (.prose own :: rest) map ↔ AllStand rest map := by
  simp [AllStand, visits, Node.visits]

theorem allStand_code {own : CodeBlock} :
    AllStand (.code own :: rest) map ↔ own.StandsIn map ∧ AllStand rest map := by
  simp [AllStand, visits, Node.visits, or_imp, forall_and]

theorem allStand_directive {own : Include} :
    AllStand (.directive own :: rest) map ↔ AllStand rest map := by
  simp [AllStand, visits, Node.visits]

theorem allStand_conditional {guard : Calc.Guard} {source : String} {children : List Node}
    {span : Span} :
    AllStand (.conditional guard source children span :: rest) map ↔
      AllStand children map ∧ AllStand rest map := by
  simp [AllStand, visits, Node.visits, or_imp, forall_and]

theorem allStand_parseWindow {number : Nat} {source : Source} {window : ByteRange}
    {document : Document} (hsource : map.get? number = some source)
    (hwindow : window.Windows source.text.toList)
    (h : parseWindow source.text.toList number window = .ok document) :
    AllStand document.nodes map := by
  intro block hblock
  obtain ⟨hnumber, hstands⟩ := stands_of_parseWindow hwindow h hblock
  exact ⟨source, hnumber ▸ hsource, hstands⟩

end AllStand

section Expand

variable {tree : FileTree} {insert : Include → Reading (List Node)}

theorem allStand_expandNodes (hkeeps : ∀ directive, Keeps tree (insert directive))
    (hinsert : ∀ {directive map next nodes}, (insert directive).run map = (.ok nodes, next) →
      AllStand nodes next)
    {nodes out : List Node} {map next : SourceMap} (h : AllStand nodes map)
    (hrun : (expandNodes insert nodes).run map = (.ok out, next)) : AllStand out next := by
  have hlater {nodes own : List Node} {map next : SourceMap}
      (hrun : (expandNodes insert nodes).run map = (.ok own, next)) :
      map.sources <+: next.sources := ((keeps_expandNodes hkeeps nodes).grows hrun).isPrefix
  induction nodes using nodesInduction generalizing map next out with
  | nil =>
      cases hrun
      exact nofun
  | prose own rest ih =>
      rw [expandNodes_prose] at hrun
      obtain ⟨others, middle, hothers, hdone⟩ := Action.run_bind_eq_ok hrun
      cases hdone
      exact allStand_prose.mpr (ih (allStand_prose.mp h) hothers)
  | code own rest ih =>
      rw [expandNodes_code] at hrun
      obtain ⟨others, middle, hothers, hdone⟩ := Action.run_bind_eq_ok hrun
      cases hdone
      obtain ⟨hown, hrest⟩ := allStand_code.mp h
      exact allStand_code.mpr ⟨hown.later (hlater hothers), ih hrest hothers⟩
  | directive own rest ih =>
      rw [expandNodes_directive] at hrun
      obtain ⟨first, middle, hfirst, hrun⟩ := Action.run_bind_eq_ok hrun
      obtain ⟨others, last, hothers, hdone⟩ := Action.run_bind_eq_ok hrun
      cases hdone
      have hstart := ((hkeeps own).grows hfirst).isPrefix
      exact allStand_append.mpr ⟨(hinsert hfirst).later (hlater hothers),
        ih ((allStand_directive.mp h).later hstart) hothers⟩
  | conditional guard source children span rest ihChildren ihRest =>
      rw [expandNodes_conditional] at hrun
      obtain ⟨inner, middle, hinner, hrun⟩ := Action.run_bind_eq_ok hrun
      obtain ⟨others, last, hothers, hdone⟩ := Action.run_bind_eq_ok hrun
      cases hdone
      obtain ⟨hchildren, hrest⟩ := allStand_conditional.mp h
      exact allStand_conditional.mpr ⟨(ihChildren hchildren hinner).later (hlater hothers),
        ihRest (hrest.later (hlater hinner)) hothers⟩

end Expand

section Reading

variable {tree : FileTree} {limit : Nat} {map next : SourceMap}

theorem allStand_openInclude {site inner : Site} {directive : Include} {document : Document}
    (hrun : (openInclude tree limit site directive).run map = (.ok (document, inner), next)) :
    AllStand document.nodes next := by
  cases opening_of_run hrun with
  | opened _ _ _ hgrows htext hnumber hpart =>
      obtain ⟨registered, hsource, rfl⟩ := registered_of_grows hgrows htext hnumber
      unfold partDocument at hpart
      split at hpart
      · rename_i range hrange
        exact allStand_parseWindow hsource (windows_of_partRange? hrange) hpart
      · cases hpart

theorem allStand_includedNodes {budget : Nat} {site : Site} {directive : Include}
    {nodes : List Node}
    (hrun : (includedNodes tree limit budget site directive).run map = (.ok nodes, next)) :
    AllStand nodes next := by
  induction budget generalizing site directive map next nodes with
  | zero => cases hrun
  | succ budget ih =>
      obtain ⟨⟨document, inner⟩, middle, hopen, hrun⟩ := Action.run_bind_eq_ok hrun
      exact allStand_expandNodes (keeps_includedNodes tree limit budget inner) ih
        (allStand_openInclude hopen) hrun

theorem allStand_resolve {directory : String} {document whole : Document}
    (h : AllStand document.nodes map)
    (hrun : (resolve tree limit directory document).run map = (.ok whole, next)) :
    AllStand whole.nodes next := by
  rw [run_resolve] at hrun
  obtain ⟨nodes, middle, hnodes, hdone⟩ := Action.run_bind_eq_ok hrun
  cases hdone
  exact allStand_expandNodes (keeps_includedNodes tree limit (limit + 1) _) allStand_includedNodes h
    hnodes

theorem allStand_loadRoot {path : String} {document : Document}
    (hrun : (loadRoot tree path).run map = (.ok document, next)) :
    AllStand document.nodes next := by
  cases hload : map.load tree path with
  | error cause =>
      have hloaded := @run_loadSource tree map path (.unreadable path)
      rw [hload] at hloaded
      cases (Action.run_bind_of_error hloaded).symm.trans hrun
  | ok loaded =>
      obtain ⟨number, last⟩ := loaded
      obtain ⟨source, hsource, hparsed⟩ := run_loadRoot hload
      obtain ⟨hparse, rfl⟩ := Prod.mk.inj (hparsed.symm.trans hrun)
      exact allStand_parseWindow hsource (windows_whole _) hparse

theorem allStand_load {root : Root} {document : Document}
    (hrun : (root.load tree).run map = (.ok document, next)) : AllStand document.nodes next := by
  cases root with
  | file path => exact allStand_loadRoot hrun
  | text name content =>
      obtain ⟨hparse, rfl⟩ := Prod.mk.inj ((run_load_text name content).symm.trans hrun)
      exact allStand_parseWindow (map.get?_push_size ⟨name, none, content⟩) (windows_whole _) hparse

end Reading

end LiveDoc
