import LiveDoc.Proofs.Document.Positions
import LiveDoc.Proofs.Include.Bound
import LiveDoc.Run.Expansion

namespace LiveDoc

-- A reading from a map comes to valid positions of the texts that are registered after it.
def Sound {α : Type} (nodesOf : α → List Node) (m : Reading α) (map : SourceMap) : Prop :=
  ValidResult (m.run map).2 nodesOf (m.run map).1

section Sound

variable {α β : Type} {nodesOf : α → List Node} {other : β → List Node} {map next : SourceMap}

theorem Sound.of_run {m : Reading α} {result : Except DocumentError α}
    (hrun : m.run map = (result, next)) (h : ValidResult next nodesOf result) :
    Sound nodesOf m map := by
  rw [Sound, hrun]
  exact h

theorem Sound.ok {m : Reading α} {a : α} (h : Sound nodesOf m map)
    (hrun : m.run map = (.ok a, next)) : ∀ visit ∈ visits (nodesOf a), visit.Valid next := by
  rw [Sound, hrun] at h
  exact h

theorem Sound.error {m : Reading α} {error : DocumentError} (h : Sound nodesOf m map)
    (hrun : m.run map = (.error error, next)) : error.Valid next := by
  rw [Sound, hrun] at h
  exact h

-- The second step of a reading starts with the positions and the map of the first one.
theorem Sound.bind {m : Reading α} {f : α → Reading β} (hm : Sound nodesOf m map)
    (hf : ∀ a next, m.run map = (.ok a, next) → (∀ visit ∈ visits (nodesOf a), visit.Valid next) →
      Sound other (f a) next) : Sound other (m >>= f) map := by
  rcases hrun : m.run map with ⟨error | a, next⟩
  · exact .of_run (Action.run_bind_of_error hrun) (hm.error hrun)
  · exact .of_run (Action.run_bind_of_ok hrun) (hf a next hrun (hm.ok hrun))

theorem sound_pure {a : α} (h : ∀ visit ∈ visits (nodesOf a), visit.Valid map) :
    Sound nodesOf (pure a) map := h

theorem sound_throw {error : DocumentError} (h : error.Valid map) :
    Sound nodesOf (throw error) map := h

end Sound

section Expand

variable {tree : FileTree} {insert : Include → Reading (List Node)}

-- Nodes have valid positions when what is put in for their directives has.
theorem sound_expandNodes (hkeeps : ∀ directive, Keeps tree (insert directive))
    (hinsert : ∀ directive map, directive.span.Valid map → Sound id (insert directive) map)
    {nodes : List Node} {map : SourceMap} (h : ∀ visit ∈ visits nodes, visit.Valid map) :
    Sound id (expandNodes insert nodes) map := by
  have hlater {nodes own : List Node} {map next : SourceMap}
      (hrun : (expandNodes insert nodes).run map = (.ok own, next)) :
      map.sources <+: next.sources := ((keeps_expandNodes hkeeps nodes).grows hrun).isPrefix
  induction nodes using nodesInduction generalizing map with
  | nil => exact sound_pure h
  | prose own rest ih =>
      obtain ⟨hown, hmore⟩ := List.forall_mem_cons.mp h
      rw [expandNodes_prose]
      refine (ih hmore).bind fun others next hrun hothers => sound_pure ?_
      exact List.forall_mem_cons.mpr ⟨hown.later (hlater hrun), hothers⟩
  | code own rest ih =>
      obtain ⟨hown, hmore⟩ := List.forall_mem_cons.mp h
      rw [expandNodes_code]
      refine (ih hmore).bind fun others next hrun hothers => sound_pure ?_
      exact List.forall_mem_cons.mpr ⟨hown.later (hlater hrun), hothers⟩
  | directive own rest ih =>
      obtain ⟨hown, hmore⟩ := List.forall_mem_cons.mp h
      rw [expandNodes_directive]
      refine (hinsert own map hown).bind fun first middle hmiddle hfirst => ?_
      have hstart := ((hkeeps own).grows hmiddle).isPrefix
      refine (ih fun visit hvisit => (hmore visit hvisit).later hstart).bind
        fun others next hrun hothers => sound_pure ?_
      rw [id, visits_append]
      exact List.forall_mem_append.mpr
        ⟨fun visit hvisit => (hfirst visit hvisit).later (hlater hrun), hothers⟩
  | conditional guard source children span rest ihChildren ihRest =>
      obtain ⟨henter, ⟨hchildren, hleave⟩, hmore⟩ := forall_visits_conditional.mp h
      rw [expandNodes_conditional]
      refine (ihChildren hchildren).bind fun inner middle hmiddle hinner => ?_
      have hstart := hlater hmiddle
      refine (ihRest fun visit hvisit => (hmore visit hvisit).later hstart).bind
        fun others next hrun hothers => sound_pure ?_
      have hstop := hlater hrun
      exact forall_visits_conditional.mpr ⟨henter.later (hstart.trans hstop),
        ⟨fun visit hvisit => (hinner visit hvisit).later hstop, hleave⟩, hothers⟩

end Expand

section Opening

variable {tree : FileTree} {limit : Nat} {site : Site} {directive : Include}
  {map next : SourceMap}

theorem windows_of_partRange? {text : String} {part : Option String} {range : ByteRange}
    (h : partRange? text part = some range) : range.Windows text.toList := by
  rcases List.mem_cons.mp (mem_ranges_of_partRange? h) with rfl | hmem
  · exact windows_whole _
  · obtain ⟨found, hfound, rfl⟩ := List.mem_map.mp hmem
    exact windows_of_mem_sections found hfound

-- A text that is read at a location is registered under its number.
theorem registered_of_grows {location : Location} {text : String} {number : Nat}
    (hgrows : map.Grows tree next) (htext : map.textAt tree location = .ok text)
    (hnumber : next.idAt? location = some number) :
    ∃ registered, next.get? number = some registered ∧ registered.text = text := by
  have hlt : number < next.sources.length := SourceMap.lt_size_of_idAt? hnumber
  have hget : next.get? number = some next.sources[number] := List.getElem?_eq_getElem hlt
  have hlater := hgrows.textAt_eq location
  rw [htext, SourceMap.textAt, hnumber] at hlater
  refine ⟨_, hget, ?_⟩
  cases hlater
  rw [SourceTable.text, hget]
  rfl

-- What is read of a text behind its registration has its positions in it.
theorem valid_partDocument {location : Location} {text path : String} {number : Nat}
    {result : Except DocumentError Document} (hspan : directive.span.Valid map)
    (hgrows : map.Grows tree next) (htext : map.textAt tree location = .ok text)
    (hnumber : next.idAt? location = some number)
    (hpart : partDocument number text path directive = result) :
    ValidResult next Document.nodes result := by
  obtain ⟨registered, hsource, rfl⟩ := registered_of_grows hgrows htext hnumber
  subst hpart
  unfold partDocument
  split
  · rename_i range hrange
    exact valid_parseWindow hsource (windows_of_partRange? hrange)
  · exact .of_span rfl (hspan.later hgrows.isPrefix)

theorem sound_openInclude (hspan : directive.span.Valid map) :
    Sound (fun opened => opened.1.nodes) (openInclude tree limit site directive) map := by
  rcases hrun : (openInclude tree limit site directive).run map with ⟨result, next⟩
  refine .of_run hrun ?_
  cases opening_of_run hrun with
  | lost | circular | tooDeep | unread => exact DocumentError.Valid.of_span rfl hspan
  | refused _ _ _ hgrows htext hnumber hpart =>
      have hvalid := valid_partDocument hspan hgrows htext hnumber hpart
      exact hvalid
  | opened _ _ _ hgrows htext hnumber hpart =>
      have hvalid := valid_partDocument hspan hgrows htext hnumber hpart
      exact hvalid

theorem sound_includedNodes (budget : Nat) (hspan : directive.span.Valid map) :
    Sound id (includedNodes tree limit budget site directive) map := by
  induction budget generalizing site directive map with
  | zero => exact sound_throw (.of_span rfl hspan)
  | succ budget ih =>
      exact (sound_openInclude hspan).bind fun opened next _ hopened =>
        sound_expandNodes (keeps_includedNodes tree limit budget opened.2)
          (fun directive map hspan => ih hspan) hopened

theorem sound_resolve {directory : String} {document : Document}
    (h : ∀ visit ∈ visits document.nodes, visit.Valid map) :
    Sound Document.nodes (resolve tree limit directory document) map := by
  refine Sound.of_run (Action.run_bind_of_ok (Action.run_get map)) ?_
  exact (sound_expandNodes (keeps_includedNodes tree limit (limit + 1) _)
    (fun _ _ => sound_includedNodes (limit + 1)) h).bind fun nodes next _ hnodes => sound_pure hnodes

end Opening

section Root

variable {tree : FileTree} {map next : SourceMap}

-- A root that is a file is read as the text that is registered for it.
theorem run_loadRoot {path : String} {number : Nat} (h : map.load tree path = .ok (number, next)) :
    ∃ source, next.get? number = some source ∧
      (loadRoot tree path).run map = (parseDocument source.text.toList number, next) := by
  have hrun := @run_loadSource tree map path (.unreadable path)
  rw [h] at hrun
  obtain ⟨location, -, htext, hgrows, hnumber⟩ := SourceMap.load_eq_ok h
  obtain ⟨registered, hsource, -⟩ := registered_of_grows hgrows htext hnumber
  have hread : next.text number = registered.text := by rw [SourceTable.text, hsource]; rfl
  refine ⟨registered, hsource, (Action.run_bind_of_ok hrun).trans ?_⟩
  rw [Action.run_bind_of_ok (Action.run_get next), hread]
  exact Action.run_liftM _ _

theorem run_load_text (name content : String) :
    (Root.load tree (.text name content)).run map =
      (parseDocument content.toList map.size, map.push ⟨name, none, content⟩) := by
  rw [Root.load, Action.run_bind_of_ok (Action.run_get map)]
  rw [map.add_eq name content]
  dsimp only
  rw [Action.run_bind_of_ok (Action.run_set map _)]
  exact Action.run_liftM _ _

theorem sound_loadRoot (path : String) : Sound Document.nodes (loadRoot tree path) map := by
  cases hload : map.load tree path with
  | error cause =>
      have hrun := @run_loadSource tree map path (.unreadable path)
      rw [hload] at hrun
      exact .of_run (Action.run_bind_of_error hrun) nofun
  | ok loaded =>
      obtain ⟨number, next⟩ := loaded
      obtain ⟨source, hsource, hrun⟩ := run_loadRoot hload
      exact .of_run hrun (valid_parseDocument hsource)

theorem sound_load (root : Root) : Sound Document.nodes (root.load tree) map := by
  cases root with
  | file path => exact sound_loadRoot path
  | text name content =>
      have hvalid := valid_parseDocument (map.get?_push_size ⟨name, none, content⟩)
      exact Sound.of_run (run_load_text name content) hvalid

end Root

end LiveDoc
