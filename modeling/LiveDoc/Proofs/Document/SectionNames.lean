import LiveDoc.Proofs.Document.Sections
import LiveDoc.Proofs.Markdown.ShownText

namespace LiveDoc

open Text Markdown

-- The first section in a list that has a property.
def FirstWith (p : Section → Prop) (found : List Section) (own : Section) : Prop :=
  p own ∧ ∃ front back, found = front ++ own :: back ∧ ∀ other ∈ front, ¬p other

-- A section that has a name, in whatever spacing the name is given.
def Section.IsNamed (name : List Char) (own : Section) : Prop :=
  own.name.toList = squeezeBlanks name

def Section.IsNamedInAnyCase (name : List Char) (own : Section) : Prop :=
  lower own.name.toList = lower (squeezeBlanks name)

section Lookup

variable {found : List Section} {name : List Char} {own : Section}

theorem FirstWith.mem {p : Section → Prop} (h : FirstWith p found own) : own ∈ found := by
  obtain ⟨-, front, back, rfl, -⟩ := h
  exact List.mem_append_right _ (List.mem_cons_self ..)

theorem find?_eq_some_iff_firstWith {test : Section → Bool} {p : Section → Prop}
    (h : ∀ other, test other = true ↔ p other) :
    found.find? test = some own ↔ FirstWith p found own := by
  simp [List.find?_eq_some_iff_append, FirstWith, ← h]

theorem find?_eq_none_iff_forall {test : Section → Bool} {p : Section → Prop}
    (h : ∀ other, test other = true ↔ p other) :
    found.find? test = none ↔ ∀ other ∈ found, ¬p other := by
  simp [List.find?_eq_none, ← h]

theorem test_isNamed (name : List Char) (other : Section) :
    (other.name.toList == squeezeBlanks name) = true ↔ other.IsNamed name := beq_iff_eq

theorem test_isNamedInAnyCase (name : List Char) (other : Section) :
    (lower other.name.toList == lower (squeezeBlanks name)) = true ↔ other.IsNamedInAnyCase name :=
  beq_iff_eq

theorem findSection?_of_isNamed (h : FirstWith (Section.IsNamed name) found own) :
    findSection? found name = some own := by
  have hfirst := (find?_eq_some_iff_firstWith (test_isNamed name)).mpr h
  rw [findSection?]
  rw [hfirst]

theorem findSection?_of_forall_not (h : ∀ other ∈ found, ¬other.IsNamed name) :
    findSection? found name =
      found.find? fun other => lower other.name.toList == lower (squeezeBlanks name) := by
  have hnone := (find?_eq_none_iff_forall (test_isNamed name)).mpr h
  rw [findSection?]
  rw [hnone]

-- One section is named so, or none is.
theorem firstWith_or_forall_not (p : Section → Prop) (found : List Section) :
    (∃ own, FirstWith p found own) ∨ ∀ other ∈ found, ¬p other := by
  classical
  have hp : ∀ other, decide (p other) = true ↔ p other := fun other => decide_eq_true_iff
  cases hfind : found.find? fun other => decide (p other) with
  | some own => exact .inl ⟨own, (find?_eq_some_iff_firstWith hp).mp hfind⟩
  | none => exact .inr ((find?_eq_none_iff_forall hp).mp hfind)

-- Case only counts where no section has the very name.
theorem findSection?_eq_some_iff :
    findSection? found name = some own ↔
      FirstWith (Section.IsNamed name) found own ∨
        (∀ other ∈ found, ¬other.IsNamed name) ∧
          FirstWith (Section.IsNamedInAnyCase name) found own := by
  rcases firstWith_or_forall_not (Section.IsNamed name) found with ⟨first, hfirst⟩ | hnone
  · rw [findSection?_of_isNamed hfirst]
    constructor
    · rintro ⟨rfl⟩
      exact .inl hfirst
    · rintro (hown | ⟨hnone, -⟩)
      · exact (findSection?_of_isNamed hfirst).symm.trans (findSection?_of_isNamed hown)
      · exact absurd hfirst.1 (hnone first hfirst.mem)
  · rw [findSection?_of_forall_not hnone, find?_eq_some_iff_firstWith (test_isNamedInAnyCase name)]
    constructor
    · exact fun hown => .inr ⟨hnone, hown⟩
    · rintro (hown | ⟨-, hown⟩)
      · exact absurd hown.1 (hnone own hown.mem)
      · exact hown

theorem findSection?_eq_none_iff :
    findSection? found name = none ↔ ∀ other ∈ found, ¬other.IsNamedInAnyCase name := by
  rcases firstWith_or_forall_not (Section.IsNamed name) found with ⟨first, hfirst⟩ | hnone
  · rw [findSection?_of_isNamed hfirst]
    exact iff_of_false nofun fun h => h first hfirst.mem (congrArg lower hfirst.1)
  · rw [findSection?_of_forall_not hnone, find?_eq_none_iff_forall (test_isNamedInAnyCase name)]

end Lookup

-- How a heading of a document names its section. The lines of `draft` are those of the heading, as a
-- reader sees them.
structure Section.NamedAfter (labels : List (List Char)) (content : List Char) (own : Section)
    (draft : Draft) : Prop where
  shown : ∀ mark, shownText mark labels content = draft.fill mark
  named : own.name.toList = squeezeBlanks (draft.fill [])
  spaced : own.name.toList = squeezeBlanks (shownText [' '] labels content) ↔ draft.Apart
  single : (∀ c ∈ content, isLineEnd c = false) → draft.Apart

-- The source of a heading's text.
def headingContent? : Leaf → Option (List Char)
  | .heading _ _ content => some content
  | _ => none

section Names

variable {labels : List (List Char)} {content : List Char} {own : Section}

theorem exists_namedAfter (h : own.name.toList = squeezeBlanks (inlineText labels content)) :
    ∃ draft, own.NamedAfter labels content draft := by
  obtain ⟨draft, hshown, hinline⟩ := exists_draft labels content
  have hspaced : own.name.toList = squeezeBlanks (shownText [' '] labels content) ↔ draft.Apart := by
    rw [h, hinline, hshown, squeezeBlanks_eq_iff, Draft.words_fill_iff]
  refine ⟨draft, hshown, by rw [h, hinline], hspaced, fun hplain => hspaced.mp ?_⟩
  rw [h, shownText_of_plain [' '] labels hplain]

theorem map_name_headings (text : List Char) :
    (headings text).map Heading.name = ((blocks text).1.filterMap headingContent?).map fun content =>
      squeezeBlanks (inlineText (blocks text).2 content) := by
  rw [headings, List.map_filterMap, List.map_filterMap]
  congr 1
  funext leaf
  cases leaf <;> rfl

theorem map_name_sections (text : List Char) :
    (sections text).map (·.name.toList) = (headings text).map Heading.name := by
  have hnames := congrArg (List.map fun own => own.1.toList)
    (map_sectionsOf (byteCount text) (headings text))
  rw [List.map_map, List.map_map] at hnames
  simpa [Function.comp_def, sections] using hnames

theorem named_by_inlineText (text : List Char) :
    List.Forall₂ (fun content own =>
        own.name.toList = squeezeBlanks (inlineText (blocks text).2 content))
      ((blocks text).1.filterMap headingContent?) (sections text) := by
  have hnames := (map_name_sections text).trans (map_name_headings text)
  have hsame := List.forall₂_eq_eq_eq ▸ hnames.symm
  rw [List.forall₂_map_left_iff, List.forall₂_map_right_iff] at hsame
  exact hsame.imp fun _ _ => Eq.symm

theorem squeezeBlanks_name {text : List Char} (h : own ∈ sections text) :
    squeezeBlanks own.name.toList = own.name.toList := by
  have hmem := List.mem_map_of_mem (f := fun own : Section => own.name.toList) h
  rw [map_name_sections, map_name_headings] at hmem
  obtain ⟨content, -, hname⟩ := List.mem_map.mp hmem
  rw [← hname, squeezeBlanks_idem]

-- The words of a name are enough to name the section.
theorem isNamed_iff_name_eq {text name : List Char} {other : Section} (h : own ∈ sections text)
    (hwords : words name = words own.name.toList) : other.IsNamed name ↔ other.name = own.name := by
  rw [Section.IsNamed, squeezeBlanks_eq_iff.mpr hwords, squeezeBlanks_name h, String.toList_inj]

end Names

-- Sections are named in the order of their headings, each by the text that its heading shows, and are
-- found by the words of their names.
theorem sections_named_by_shown_text (text : List Char) :
    List.Forall₂ (fun content own => ∃ draft, Section.NamedAfter (blocks text).2 content own draft)
        ((blocks text).1.filterMap headingContent?) (sections text) ∧
      (∀ own ∈ sections text, ∀ name, words name = words own.name.toList →
        ∃ first, findSection? (sections text) name = some first ∧
          FirstWith (fun other => other.name = own.name) (sections text) first) ∧
      (∀ name own, findSection? (sections text) name = some own ↔
        FirstWith (Section.IsNamed name) (sections text) own ∨
          (∀ other ∈ sections text, ¬other.IsNamed name) ∧
            FirstWith (Section.IsNamedInAnyCase name) (sections text) own) ∧
      ∀ name, findSection? (sections text) name = none ↔
        ∀ other ∈ sections text, ¬other.IsNamedInAnyCase name := by
  refine ⟨(named_by_inlineText text).imp fun _ _ => exists_namedAfter, fun own hown name hwords => ?_,
    fun _ _ => findSection?_eq_some_iff, fun _ => findSection?_eq_none_iff⟩
  rcases firstWith_or_forall_not (fun other => other.name = own.name) (sections text) with
    ⟨first, hfirst⟩ | hnone
  · refine ⟨first, findSection?_of_isNamed ?_, hfirst⟩
    simpa only [FirstWith, isNamed_iff_name_eq hown hwords] using hfirst
  · exact absurd rfl (hnone own hown)

-- Two headings show the same text, and the first one is found by its words.
theorem marked_up_name_finds_first :
    ⟨"Foo bar", 2, ⟨12, 24⟩⟩ ∈ sections "# Foo *bar*\n## Foo  bar\n".toList ∧
      ∃ first,
        findSection? (sections "# Foo *bar*\n## Foo  bar\n".toList) " Foo\tbar".toList = some first ∧
        FirstWith (fun other => other.name = "Foo bar")
          (sections "# Foo *bar*\n## Foo  bar\n".toList) first := by
  have hsections : sections "# Foo *bar*\n## Foo  bar\n".toList =
      [⟨"Foo bar", 1, ⟨0, 24⟩⟩, ⟨"Foo bar", 2, ⟨12, 24⟩⟩] := by decide +kernel
  have hmem : ⟨"Foo bar", 2, ⟨12, 24⟩⟩ ∈ sections "# Foo *bar*\n## Foo  bar\n".toList := by
    rw [hsections]
    exact List.mem_cons_of_mem _ (List.mem_cons_self ..)
  exact ⟨hmem, (sections_named_by_shown_text _).2.1 _ hmem " Foo\tbar".toList (by decide)⟩

-- The last word of a line and the first word of the next one become one word of the name.
theorem words_at_line_end_fuse :
    (blocks "Foo\nbar\n===\n".toList).1 = [.heading 0 1 "Foo\nbar".toList] ∧
      squeezeBlanks (shownText [' '] [] "Foo\nbar".toList) = "Foo bar".toList ∧
      sections "Foo\nbar\n===\n".toList = [⟨"Foobar", 1, ⟨0, 12⟩⟩] ∧
      findSection? (sections "Foo\nbar\n===\n".toList) "Foo bar".toList = none := by
  decide +kernel

end LiveDoc
