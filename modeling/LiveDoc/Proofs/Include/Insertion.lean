import LiveDoc.Document.Include
import LiveDoc.Proofs.Data.Action
import LiveDoc.Proofs.Document.Visits
import LiveDoc.Proofs.Source.Growth

namespace LiveDoc

-- A reading registers texts of the tree and does nothing else to the map, also when it fails.
def Keeps (tree : FileTree) {α : Type} (m : Reading α) : Prop :=
  ∀ map : SourceMap, map.Grows tree (m.run map).2

section Keeps

variable {tree : FileTree} {α β : Type}

theorem Keeps.pure (a : α) : Keeps tree (Pure.pure a : Reading α) := fun map => .refl map

theorem Keeps.bind {m : Reading α} {f : α → Reading β} (hm : Keeps tree m)
    (hf : ∀ a, Keeps tree (f a)) : Keeps tree (m >>= f) := by
  intro map
  have hfirst := hm map
  rcases hrun : m.run map with ⟨e | a, next⟩
  · rw [hrun] at hfirst
    rwa [Action.run_bind_of_error hrun]
  · rw [hrun] at hfirst
    rw [Action.run_bind_of_ok hrun]
    exact hfirst.trans (hf a next)

theorem Keeps.grows {m : Reading α} (hm : Keeps tree m) {map next : SourceMap}
    {result : Except DocumentError α} (hrun : m.run map = (result, next)) : map.Grows tree next := by
  have h := hm map
  rwa [hrun] at h

end Keeps

section Expand

variable {insert : Include → Reading (List Node)}

theorem expandNodes_prose (own : Prose) (rest : List Node) :
    expandNodes insert (.prose own :: rest) = (do
      let others ← expandNodes insert rest
      pure (.prose own :: others)) := by
  simp [expandNodes, expandNode]

theorem expandNodes_code (own : CodeBlock) (rest : List Node) :
    expandNodes insert (.code own :: rest) = (do
      let others ← expandNodes insert rest
      pure (.code own :: others)) := by
  simp [expandNodes, expandNode]

theorem expandNodes_directive (own : Include) (rest : List Node) :
    expandNodes insert (.directive own :: rest) = (do
      let first ← insert own
      let others ← expandNodes insert rest
      pure (first ++ others)) := by
  simp [expandNodes, expandNode]

theorem expandNodes_conditional (guard : Calc.Guard) (source : String) (children : List Node)
    (span : Span) (rest : List Node) :
    expandNodes insert (.conditional guard source children span :: rest) = (do
      let children ← expandNodes insert children
      let others ← expandNodes insert rest
      pure (.conditional guard source children span :: others)) := by
  simp [expandNodes, expandNode]

variable {tree : FileTree}

theorem keeps_expandNodes (hinsert : ∀ directive, Keeps tree (insert directive))
    (nodes : List Node) : Keeps tree (expandNodes insert nodes) := by
  induction nodes using nodesInduction with
  | nil => exact .pure []
  | prose own rest ih =>
      rw [expandNodes_prose]
      exact ih.bind fun _ => .pure _
  | code own rest ih =>
      rw [expandNodes_code]
      exact ih.bind fun _ => .pure _
  | directive own rest ih =>
      rw [expandNodes_directive]
      exact (hinsert own).bind fun _ => ih.bind fun _ => .pure _
  | conditional guard source children span rest ihChildren ihRest =>
      rw [expandNodes_conditional]
      exact ihChildren.bind fun _ => ihRest.bind fun _ => .pure _

section Outcomes

variable (hinsert : ∀ directive, Keeps tree (insert directive)) {nodes : List Node}
  {map next : SourceMap}

include hinsert

-- Nodes fail where one of their directives does.
theorem expandNodes_eq_error {e : DocumentError}
    (h : (expandNodes insert nodes).run map = (.error e, next)) :
    ∃ directive middle, .directive directive ∈ visits nodes ∧ map.Grows tree middle ∧
      (insert directive).run middle = (.error e, next) := by
  induction nodes using nodesInduction generalizing map with
  | nil => cases h
  | prose own rest ih | code own rest ih =>
      simp only [expandNodes_prose, expandNodes_code] at h
      rcases Action.run_bind_eq_error h with h | ⟨_, _, _, h⟩
      · obtain ⟨other, later, hmem, hgrows, herror⟩ := ih h
        exact ⟨other, later, by simp [visits, hmem], hgrows, herror⟩
      · cases h
  | directive own rest ih =>
      rw [expandNodes_directive] at h
      rcases Action.run_bind_eq_error h with h | ⟨first, middle, hfirst, h⟩
      · exact ⟨own, map, by simp [visits, Node.visits], .refl map, h⟩
      · rcases Action.run_bind_eq_error h with h | ⟨_, _, _, h⟩
        · obtain ⟨other, later, hmem, hgrows, herror⟩ := ih h
          exact ⟨other, later, by simp [visits, hmem], ((hinsert own).grows hfirst).trans hgrows,
            herror⟩
        · cases h
  | conditional guard source children span rest ihChildren ihRest =>
      rw [expandNodes_conditional] at h
      rcases Action.run_bind_eq_error h with h | ⟨inner, middle, hinner, h⟩
      · obtain ⟨other, later, hmem, hgrows, herror⟩ := ihChildren h
        exact ⟨other, later, by simp [visits, Node.visits, hmem], hgrows, herror⟩
      · rcases Action.run_bind_eq_error h with h | ⟨_, _, _, h⟩
        · obtain ⟨other, later, hmem, hgrows, herror⟩ := ihRest h
          exact ⟨other, later, by simp [visits, hmem],
            ((keeps_expandNodes hinsert children).grows hinner).trans hgrows, herror⟩
        · cases h

-- Where nodes do not fail, each of their directives has been answered.
theorem expandNodes_eq_ok {out : List Node} (h : (expandNodes insert nodes).run map = (.ok out, next))
    {directive : Include} (hmem : .directive directive ∈ visits nodes) :
    ∃ middle inner later, map.Grows tree middle ∧
      (insert directive).run middle = (.ok inner, later) ∧ later.Grows tree next := by
  induction nodes using nodesInduction generalizing map next out with
  | nil => cases hmem
  | prose own rest ih | code own rest ih =>
      simp only [expandNodes_prose, expandNodes_code] at h
      obtain ⟨others, later, hothers, h⟩ := Action.run_bind_eq_ok h
      cases h
      exact ih hothers (by simpa [visits, Node.visits] using hmem)
  | directive own rest ih =>
      rw [expandNodes_directive] at h
      obtain ⟨first, middle, hfirst, h⟩ := Action.run_bind_eq_ok h
      obtain ⟨others, later, hothers, h⟩ := Action.run_bind_eq_ok h
      cases h
      have hkept := keeps_expandNodes hinsert rest
      simp only [visits, Node.visits, List.singleton_append, List.mem_cons,
        Visit.directive.injEq] at hmem
      rcases hmem with rfl | hmem
      · exact ⟨map, first, middle, .refl map, hfirst, hkept.grows hothers⟩
      · obtain ⟨start, inner, stop, hstart, hrun, hstop⟩ := ih hothers hmem
        exact ⟨start, inner, stop, ((hinsert own).grows hfirst).trans hstart, hrun, hstop⟩
  | conditional guard source children span rest ihChildren ihRest =>
      rw [expandNodes_conditional] at h
      obtain ⟨own, middle, hown, h⟩ := Action.run_bind_eq_ok h
      obtain ⟨others, later, hothers, h⟩ := Action.run_bind_eq_ok h
      cases h
      simp only [visits, Node.visits, List.cons_append, List.append_assoc, List.mem_cons,
        List.mem_append, reduceCtorEq, false_or, List.not_mem_nil] at hmem
      rcases hmem with hmem | hmem
      · obtain ⟨start, inner, stop, hstart, hrun, hstop⟩ := ihChildren hown hmem
        exact ⟨start, inner, stop, hstart, hrun,
          hstop.trans ((keeps_expandNodes hinsert rest).grows hothers)⟩
      · obtain ⟨start, inner, stop, hstart, hrun, hstop⟩ := ihRest hothers hmem
        exact ⟨start, inner, stop, ((keeps_expandNodes hinsert children).grows hown).trans hstart,
          hrun, hstop⟩

-- What answers the directives in the same way does the same to the nodes.
theorem run_expandNodes_congr {other : Include → Reading (List Node)}
    (hsame : ∀ directive middle, .directive directive ∈ visits nodes → map.Grows tree middle →
      (insert directive).run middle = (other directive).run middle) :
    (expandNodes insert nodes).run map = (expandNodes other nodes).run map := by
  induction nodes using nodesInduction generalizing map with
  | nil => rfl
  | prose own rest ih | code own rest ih =>
      simp only [expandNodes_prose, expandNodes_code]
      refine Action.run_bind_congr (ih fun other middle hmem hgrows => ?_) fun _ _ _ => rfl
      exact hsame other middle (by simp [visits, hmem]) hgrows
  | directive own rest ih =>
      simp only [expandNodes_directive]
      refine Action.run_bind_congr (hsame own map (by simp [visits, Node.visits]) (.refl map))
        fun _ start hfirst => ?_
      refine Action.run_bind_congr (ih fun other middle hmem hgrows => ?_) fun _ _ _ => rfl
      exact hsame other middle (by simp [visits, hmem])
        (((hinsert own).grows hfirst).trans hgrows)
  | conditional guard source children span rest ihChildren ihRest =>
      simp only [expandNodes_conditional]
      refine Action.run_bind_congr (ihChildren fun other middle hmem hgrows => ?_)
        fun _ start hchildren => ?_
      · exact hsame other middle (by simp [visits, Node.visits, hmem]) hgrows
      refine Action.run_bind_congr (ihRest fun other middle hmem hgrows => ?_) fun _ _ _ => rfl
      exact hsame other middle (by simp [visits, hmem])
        (((keeps_expandNodes hinsert children).grows hchildren).trans hgrows)

end Outcomes

end Expand

end LiveDoc
