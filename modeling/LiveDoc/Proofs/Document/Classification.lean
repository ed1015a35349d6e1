import LiveDoc.Document.Classified

namespace LiveDoc

theorem exists_of_bind_eq_ok {ε α β : Type} {first : Except ε α} {next : α → Except ε β} {b : β}
    (h : first >>= next = .ok b) : ∃ a, first = .ok a ∧ next a = .ok b := by
  cases first with
  | error e => cases h
  | ok a => exact ⟨a, rfl, h⟩

theorem eq_error_of_bind {ε α β : Type} {first : Except ε α} {next : α → Except ε β} {e : ε}
    (h : first >>= next = .error e) :
    first = .error e ∨ ∃ a, first = .ok a ∧ next a = .error e := by
  cases first with
  | error other =>
      cases h
      exact .inl rfl
  | ok a => exact .inr ⟨a, rfl, h⟩

-- Trees with the same nodes but for their blocks, which are related one by one.
inductive SameBut (R : CodeBlock → CodeBlock → Prop) : List Node → List Node → Prop
  | nil : SameBut R [] []
  | prose {rest others : List Node} (own : Prose) :
      SameBut R rest others → SameBut R (.prose own :: rest) (.prose own :: others)
  | directive {rest others : List Node} (own : Include) :
      SameBut R rest others → SameBut R (.directive own :: rest) (.directive own :: others)
  | code {own other : CodeBlock} {rest others : List Node} :
      R own other → SameBut R rest others → SameBut R (.code own :: rest) (.code other :: others)
  | conditional {children branch rest others : List Node} (guard : Calc.Guard) (source : String)
      (span : Span) :
      SameBut R children branch → SameBut R rest others →
      SameBut R (.conditional guard source children span :: rest)
        (.conditional guard source branch span :: others)

theorem SameBut.length_blocks {R : CodeBlock → CodeBlock → Prop} {nodes others : List Node}
    (h : SameBut R nodes others) : (blocksOf nodes).length = (blocksOf others).length := by
  induction h with
  | nil => rfl
  | prose _ _ ih | directive _ _ ih => exact ih
  | code _ _ ih => exact congrArg (· + 1) ih
  | conditional _ _ _ _ _ ihChildren ihRest =>
      simp only [blocksOf, Node.blocks, List.length_append, ihChildren, ihRest]

section Classification

variable {registry : Registry} {language : String}

-- Only the modifiers and the index of a block are set, and the modifiers do not depend on the
-- index.
theorem classifyBlock_eq_ok {index : Nat} {block own : CodeBlock}
    (h : classifyBlock registry language index block = .ok own) :
    own = { block with modifiers := own.modifiers, index } ∧
      ∀ place, classifyBlock registry language place block = .ok { own with index := place } := by
  obtain ⟨seen, hseen, h⟩ := exists_of_bind_eq_ok h
  simp only [classifyBlock, hseen]
  by_cases hlanguage : block.language = some language
  · rw [if_pos hlanguage] at h
    cases h
    exact ⟨rfl, fun place => if_pos hlanguage⟩
  · rw [if_neg hlanguage] at h
    cases hfind : seen.find? fun tag => tag.2.needsExecution with
    | some found =>
        rw [hfind] at h
        cases h
    | none =>
        rw [hfind] at h
        cases h
        refine ⟨rfl, fun place => ?_⟩
        simp only [bind, Except.bind, if_neg hlanguage, hfind]

variable {next last : Nat} {rest out : List Node}

theorem classifyNodes_nil_eq_ok (h : classifyNodes registry language next [] = .ok (out, last)) :
    out = [] ∧ last = next := by
  cases h
  exact ⟨rfl, rfl⟩

theorem classifyNodes_prose_eq_ok {own : Prose}
    (h : classifyNodes registry language next (.prose own :: rest) = .ok (out, last)) :
    ∃ others, classifyNodes registry language next rest = .ok (others, last) ∧
      out = .prose own :: others := by
  obtain ⟨first, hfirst, h⟩ := exists_of_bind_eq_ok h
  cases hfirst
  obtain ⟨⟨others, stop⟩, hrest, h⟩ := exists_of_bind_eq_ok h
  cases h
  exact ⟨others, hrest, rfl⟩

theorem classifyNodes_directive_ne_ok {own : Include} :
    classifyNodes registry language next (.directive own :: rest) ≠ .ok (out, last) := nofun

theorem classifyNodes_code_eq_ok {block : CodeBlock}
    (h : classifyNodes registry language next (.code block :: rest) = .ok (out, last)) :
    ∃ own others, classifyBlock registry language next block = .ok own ∧
      classifyNodes registry language (next + 1) rest = .ok (others, last) ∧
      out = .code own :: others := by
  obtain ⟨first, hfirst, h⟩ := exists_of_bind_eq_ok h
  obtain ⟨own, hown, hpair⟩ := exists_of_bind_eq_ok hfirst
  cases hpair
  obtain ⟨⟨others, stop⟩, hrest, h⟩ := exists_of_bind_eq_ok h
  cases h
  exact ⟨own, others, hown, hrest, rfl⟩

theorem classifyNodes_conditional_eq_ok {guard : Calc.Guard} {source : String}
    {children : List Node} {span : Span}
    (h : classifyNodes registry language next (.conditional guard source children span :: rest) =
      .ok (out, last)) :
    ∃ branch middle others, classifyNodes registry language next children = .ok (branch, middle) ∧
      classifyNodes registry language middle rest = .ok (others, last) ∧
      out = .conditional guard source branch span :: others := by
  obtain ⟨first, hfirst, h⟩ := exists_of_bind_eq_ok h
  obtain ⟨⟨branch, middle⟩, hbranch, hpair⟩ := exists_of_bind_eq_ok hfirst
  cases hpair
  obtain ⟨⟨others, stop⟩, hrest, h⟩ := exists_of_bind_eq_ok h
  cases h
  exact ⟨branch, middle, others, hbranch, hrest, rfl⟩

theorem classify_eq_ok {document : Document} {classified : Classified}
    (h : classify registry language document = .ok classified) :
    ∃ nodes last, classifyNodes registry language 0 document.nodes = .ok (nodes, last) ∧
      classified = ⟨⟨document.source, nodes⟩, language⟩ := by
  obtain ⟨⟨nodes, last⟩, hnodes, h⟩ := exists_of_bind_eq_ok h
  cases h
  exact ⟨nodes, last, hnodes, rfl⟩

theorem language_of_classify {document : Document} {classified : Classified}
    (h : classify registry language document = .ok classified) : classified.language = language := by
  obtain ⟨nodes, last, -, rfl⟩ := classify_eq_ok h
  rfl

end Classification

end LiveDoc
