import LiveDoc.Proofs.Document.Classification

namespace LiveDoc

theorem blocksOf_append (front back : List Node) :
    blocksOf (front ++ back) = blocksOf front ++ blocksOf back := by
  induction front with
  | nil => rfl
  | cons node rest ih => rw [List.cons_append, blocksOf, blocksOf, ih, List.append_assoc]

-- Nodes begin others: these are cut at one place, and everything from there on is left out. A deep
-- cut may be inside of a condition, which is then the last one that is left.
inductive Begins (deep : Bool) : List Node → List Node → Prop
  | nil (rest : List Node) : Begins deep [] rest
  | cons (node : Node) {front rest : List Node} :
      Begins deep front rest → Begins deep (node :: front) (node :: rest)
  | inside (guard : Calc.Guard) (source : String) (span : Span) {front children : List Node}
      (rest : List Node) : deep = true → Begins deep front children →
      Begins deep [.conditional guard source front span]
        (.conditional guard source children span :: rest)

section Begins

variable {deep : Bool} {front nodes : List Node}

theorem Begins.blocks (h : Begins deep front nodes) : blocksOf front <+: blocksOf nodes := by
  induction h with
  | nil rest => exact List.nil_prefix
  | cons node _ ih => exact (List.prefix_append_right_inj node.blocks).mpr ih
  | inside guard source span rest _ _ ih =>
      simp only [blocksOf, Node.blocks, List.append_nil]
      exact ih.trans (List.prefix_append _ _)

end Begins

section Classification

variable {registry : Registry} {language : String} {deep : Bool}

theorem classifyNodes_cons_eq_ok {node : Node} {rest out : List Node} {next last : Nat}
    (h : classifyNodes registry language next (node :: rest) = .ok (out, last)) :
    ∃ first middle others, classifyNode registry language next node = .ok (first, middle) ∧
      classifyNodes registry language middle rest = .ok (others, last) ∧ out = first :: others := by
  obtain ⟨⟨first, middle⟩, hfirst, h⟩ := exists_of_bind_eq_ok h
  obtain ⟨⟨others, stop⟩, hrest, h⟩ := exists_of_bind_eq_ok h
  cases h
  exact ⟨first, middle, others, hfirst, hrest, rfl⟩

-- What is left out changes nothing in the classification of what begins.
theorem Begins.classifyNodes {front nodes out : List Node} {next last : Nat}
    (h : Begins deep front nodes)
    (hclassify : LiveDoc.classifyNodes registry language next nodes = .ok (out, last)) :
    ∃ begun stop, LiveDoc.classifyNodes registry language next front = .ok (begun, stop) ∧
      Begins deep begun out := by
  induction h generalizing next last out with
  | nil rest => exact ⟨[], next, rfl, .nil out⟩
  | cons node _ ih =>
      obtain ⟨first, middle, others, hfirst, hothers, rfl⟩ := classifyNodes_cons_eq_ok hclassify
      obtain ⟨begun, stop, hbegun, hbegins⟩ := ih hothers
      refine ⟨first :: begun, stop, ?_, .cons first hbegins⟩
      simp only [LiveDoc.classifyNodes, hfirst, hbegun, bind, Except.bind]
  | inside guard source span rest hdeep _ ih =>
      obtain ⟨branch, middle, others, hbranch, -, rfl⟩ :=
        classifyNodes_conditional_eq_ok hclassify
      obtain ⟨begun, stop, hbegun, hbegins⟩ := ih hbranch
      refine ⟨[.conditional guard source begun span], stop, ?_,
        .inside guard source span others hdeep hbegins⟩
      simp only [LiveDoc.classifyNodes, classifyNode, hbegun, bind, Except.bind]

theorem Begins.classify {front : List Node} {document : Document} {classified : Classified}
    (h : Begins deep front document.nodes)
    (hclassify : LiveDoc.classify registry language document = .ok classified) (source : Nat) :
    ∃ begun, LiveDoc.classify registry language ⟨source, front⟩ = .ok ⟨⟨source, begun⟩, language⟩ ∧
      Begins deep begun classified.document.nodes := by
  obtain ⟨nodes, last, hnodes, rfl⟩ := classify_eq_ok hclassify
  obtain ⟨begun, stop, hbegun, hbegins⟩ := h.classifyNodes hnodes
  refine ⟨begun, ?_, hbegins⟩
  simp only [LiveDoc.classify, hbegun, bind, Except.bind]

end Classification

end LiveDoc
