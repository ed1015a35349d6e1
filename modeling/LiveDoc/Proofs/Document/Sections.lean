import LiveDoc.Proofs.Document.Lossless
import LiveDoc.Proofs.Document.Places

namespace LiveDoc

open Text

-- Where a section of a level stops, by the headings that follow its own.
def sectionEnd (stop level : Nat) (later : List Heading) : Nat :=
  match later.find? fun heading => heading.level ≤ level with
  | some heading => heading.start
  | none => stop

def Heading.section (stop : Nat) (later : List Heading) (heading : Heading) : Section :=
  ⟨String.ofList heading.name, heading.level,
    ⟨heading.start, sectionEnd stop heading.level later⟩⟩

theorem sectionsOf_cons (stop : Nat) (heading : Heading) (rest : List Heading) :
    sectionsOf stop (heading :: rest) = heading.section stop rest :: sectionsOf stop rest := rfl

theorem sectionEnd_cons (stop level : Nat) (heading : Heading) (rest : List Heading) :
    sectionEnd stop level (heading :: rest) =
      if heading.level ≤ level then heading.start else sectionEnd stop level rest := by
  unfold sectionEnd
  by_cases h : heading.level ≤ level
  · rw [List.find?_cons_of_pos (by simpa using h), if_pos h]
  · rw [List.find?_cons_of_neg (by simpa using h), if_neg h]

-- Headings that stand one after the other, and all before `stop`.
structure Heading.InOrder (stop : Nat) (hs : List Heading) : Prop where
  apart : hs.Pairwise fun first later => first.start < later.start
  inside : ∀ heading ∈ hs, heading.start < stop

section Ends

variable {stop level bound : Nat} {heading : Heading} {rest between after : List Heading}

theorem Heading.InOrder.head (h : Heading.InOrder stop (heading :: rest)) :
    ∀ later ∈ rest, heading.start < later.start :=
  (List.pairwise_cons.mp h.apart).1

theorem Heading.InOrder.tail (h : Heading.InOrder stop (heading :: rest)) :
    Heading.InOrder stop rest :=
  ⟨(List.pairwise_cons.mp h.apart).2, fun later hlater => h.inside later (List.mem_cons_of_mem _ hlater)⟩

-- A section goes on as long as no heading has come.
theorem le_sectionEnd (hstop : bound ≤ stop) (hrest : ∀ later ∈ rest, bound ≤ later.start) :
    bound ≤ sectionEnd stop level rest := by
  unfold sectionEnd
  split
  · rename_i found hfind
    exact hrest found (List.mem_of_find?_eq_some hfind)
  · exact hstop

theorem sectionEnd_le (h : Heading.InOrder stop rest) : sectionEnd stop level rest ≤ stop := by
  unfold sectionEnd
  split
  · rename_i found hfind
    exact Nat.le_of_lt (h.inside found (List.mem_of_find?_eq_some hfind))
  · exact Nat.le_refl stop

-- Deeper headings do not end a section.
theorem sectionEnd_append (h : ∀ own ∈ between, level < own.level) :
    sectionEnd stop level (between ++ after) = sectionEnd stop level after := by
  induction between with
  | nil => rfl
  | cons own rest ih =>
      obtain ⟨hown, hrest⟩ := List.forall_mem_cons.mp h
      rw [List.cons_append, sectionEnd_cons, if_neg (Nat.not_le_of_lt hown), ih hrest]

-- A deeper section stops earlier.
theorem sectionEnd_anti (h : Heading.InOrder stop rest) {deeper : Nat} (hle : level ≤ deeper) :
    sectionEnd stop deeper rest ≤ sectionEnd stop level rest := by
  induction rest with
  | nil => exact Nat.le_refl stop
  | cons own rest ih =>
      rw [sectionEnd_cons, sectionEnd_cons]
      by_cases hdeeper : own.level ≤ deeper
      · rw [if_pos hdeeper]
        split
        · exact Nat.le_refl _
        · exact le_sectionEnd (Nat.le_of_lt (h.inside own (List.mem_cons_self ..)))
            fun later hlater => Nat.le_of_lt (h.head later hlater)
      · rw [if_neg hdeeper, if_neg (by omega)]
        exact ih h.tail

-- A heading is inside a section just as long as all headings so far are deeper.
theorem lt_sectionEnd_iff (h : Heading.InOrder stop (between ++ heading :: after)) :
    heading.start < sectionEnd stop level (between ++ heading :: after) ↔
      ∀ own ∈ between ++ [heading], level < own.level := by
  induction between with
  | nil =>
      have hafter : heading.start < sectionEnd stop level after :=
        le_sectionEnd (h.inside heading (List.mem_cons_self ..)) h.head
      rw [List.nil_append, sectionEnd_cons, List.nil_append, List.forall_mem_singleton]
      split <;> omega
  | cons own rest ih =>
      have hown := h.head heading (List.mem_append_right _ (List.mem_cons_self ..))
      rw [List.cons_append, sectionEnd_cons, List.cons_append, List.forall_mem_cons]
      by_cases hle : own.level ≤ level
      · rw [if_pos hle]
        exact iff_of_false (Nat.not_lt_of_gt hown) fun hall => Nat.not_lt_of_le hle hall.1
      · rw [if_neg hle, ih h.tail]
        exact (and_iff_right (Nat.lt_of_not_le hle)).symm

end Ends

section Lists

variable {stop : Nat} {hs : List Heading} {front rest : List Section} {own : Section}

-- A section in a list has its heading. The sections before and behind it are those of the headings
-- before and behind.
theorem exists_of_sectionsOf_eq_append (h : sectionsOf stop hs = front ++ own :: rest) :
    ∃ before heading later, hs = before ++ heading :: later ∧ own = heading.section stop later ∧
      front.map Section.level = before.map Heading.level ∧ rest = sectionsOf stop later := by
  induction front generalizing hs with
  | nil =>
      cases hs with
      | nil => cases h
      | cons heading later =>
          obtain ⟨hown, hrest⟩ := List.cons.inj h
          exact ⟨[], heading, later, rfl, hown.symm, rfl, hrest.symm⟩
  | cons first more ih =>
      cases hs with
      | nil => cases h
      | cons heading later =>
          obtain ⟨hfirst, hmore⟩ := List.cons.inj h
          obtain ⟨before, other, last, rfl, hother, hlevels, hlast⟩ := ih hmore
          refine ⟨heading :: before, other, last, rfl, hother, ?_, hlast⟩
          rw [List.map_cons, List.map_cons, hlevels, ← hfirst]

theorem exists_of_mem_sectionsOf (h : own ∈ sectionsOf stop hs) :
    ∃ before heading later, hs = before ++ heading :: later ∧ own = heading.section stop later := by
  obtain ⟨front, rest, hsplit⟩ := List.append_of_mem h
  obtain ⟨before, heading, later, hhs, hown, -⟩ := exists_of_sectionsOf_eq_append hsplit
  exact ⟨before, heading, later, hhs, hown⟩

theorem Heading.InOrder.drop {before : List Heading} (h : Heading.InOrder stop (before ++ hs)) :
    Heading.InOrder stop hs :=
  ⟨(List.pairwise_append.mp h.apart).2.1, fun heading hheading =>
    h.inside heading (List.mem_append_right _ hheading)⟩

theorem map_sectionsOf (stop : Nat) (hs : List Heading) :
    (sectionsOf stop hs).map (fun own => (own.name, own.level, own.range.start)) =
      hs.map fun heading => (String.ofList heading.name, heading.level, heading.start) := by
  induction hs with
  | nil => rfl
  | cons heading rest ih =>
      rw [sectionsOf_cons, List.map_cons, List.map_cons, ih]
      rfl

end Lists

-- One section lies inside another one.
def Section.Within (inner outer : Section) : Prop :=
  outer.range.start ≤ inner.range.start ∧ inner.range.stop ≤ outer.range.stop

-- A section that lies in no other one.
def Outermost (found : List Section) (own : Section) : Prop :=
  own ∈ found ∧ ∀ other ∈ found, own.Within other → other = own

-- Sections that are apart, or of which the later one is a deeper part of the earlier one.
def Section.Nests (first later : Section) : Prop :=
  first.range.stop ≤ later.range.start ∨
    first.range.start < later.range.start ∧ later.range.stop ≤ first.range.stop ∧
      first.level < later.level

-- What Markdown reports of a heading: where it starts, its level and its name, blanks squeezed.
def Markdown.Leaf.reported? (labels : List (List Char)) : Leaf → Option (Nat × Nat × List Char)
  | .heading start level content =>
      some (start, level, squeezeBlanks (Markdown.inlineText labels content))
  | _ => none

-- How sections lie in a text, one for each heading that Markdown reports.
structure Hierarchy (text : List Char) (found : List Section) : Prop where
  reported : found.map (fun own => (own.range.start, own.level, own.name.toList)) =
    (Markdown.blocks text).1.filterMap (Markdown.Leaf.reported? (Markdown.blocks text).2)
  ordered : found.Pairwise fun first later => first.range.start < later.range.start
  inside : ∀ own ∈ found, own.range.start < own.range.stop ∧ own.range.stop ≤ byteCount text
  contains : ∀ front outer between inner rest,
    found = front ++ outer :: (between ++ inner :: rest) →
      (outer.range.Has inner.range.start ↔ ∀ own ∈ between ++ [inner], outer.level < own.level)
  nested : found.Pairwise Section.Nests
  covering : ∀ first ∈ found.head?, ∀ position, first.range.start ≤ position →
    position < byteCount text → ∃! own, Outermost found own ∧ own.range.Has position

section Hierarchy

variable {stop position : Nat} {hs : List Heading} {heading : Heading}

theorem start_lt_sectionEnd (h : Heading.InOrder stop (heading :: hs)) (level : Nat) :
    heading.start < sectionEnd stop level hs :=
  le_sectionEnd (h.inside heading (List.mem_cons_self ..)) h.head

theorem inside_sectionsOf (h : Heading.InOrder stop hs) :
    ∀ own ∈ sectionsOf stop hs, own.range.start < own.range.stop ∧ own.range.stop ≤ stop := by
  intro own hown
  obtain ⟨before, heading, later, rfl, rfl⟩ := exists_of_mem_sectionsOf hown
  exact ⟨start_lt_sectionEnd h.drop _, sectionEnd_le h.drop.tail⟩

theorem ordered_sectionsOf (h : Heading.InOrder stop hs) :
    (sectionsOf stop hs).Pairwise fun first later => first.range.start < later.range.start := by
  have hstarts := congrArg (List.map fun own => own.2.2) (map_sectionsOf stop hs)
  rw [List.map_map, List.map_map] at hstarts
  have hpair := List.pairwise_map.mpr h.apart
  exact List.pairwise_map.mp (hstarts ▸ hpair)

theorem contains_sectionsOf (h : Heading.InOrder stop hs) {front between rest : List Section}
    {outer inner : Section}
    (hsplit : sectionsOf stop hs = front ++ outer :: (between ++ inner :: rest)) :
    outer.range.Has inner.range.start ↔ ∀ own ∈ between ++ [inner], outer.level < own.level := by
  obtain ⟨before, heading, later, rfl, rfl, -, hlater⟩ := exists_of_sectionsOf_eq_append hsplit
  obtain ⟨passed, other, last, rfl, rfl, hlevels, -⟩ := exists_of_sectionsOf_eq_append hlater.symm
  have hother := h.drop.head other (List.mem_append_right _ (List.mem_cons_self ..))
  have hforall : (∀ own ∈ between ++ [other.section stop last], heading.level < own.level) ↔
      ∀ own ∈ passed ++ [other], heading.level < own.level := by
    have hmap : (between ++ [other.section stop last]).map Section.level =
        (passed ++ [other]).map Heading.level := by
      rw [List.map_append, List.map_append, hlevels]
      rfl
    rw [← List.forall_mem_map (f := Section.level) (P := (heading.level < ·)), hmap,
      List.forall_mem_map]
  refine Iff.trans ?_ hforall.symm
  rw [← lt_sectionEnd_iff h.drop.tail]
  exact and_iff_right (Nat.le_of_lt hother)

-- Two sections of which the later one starts in the earlier one: it also stops there.
theorem nested_sectionsOf (h : Heading.InOrder stop hs) :
    (sectionsOf stop hs).Pairwise Section.Nests := by
  induction hs with
  | nil => exact .nil
  | cons heading rest ih =>
      refine List.pairwise_cons.mpr ⟨fun own hown => ?_, ih h.tail⟩
      obtain ⟨between, other, after, rfl, rfl⟩ := exists_of_mem_sectionsOf hown
      have hother := h.head other (List.mem_append_right _ (List.mem_cons_self ..))
      by_cases hin : other.start < sectionEnd stop heading.level (between ++ other :: after)
      · have hdeeper := (lt_sectionEnd_iff h.tail).mp hin
        obtain ⟨hbetween, hlast⟩ := List.forall_mem_append.mp hdeeper
        have hlevel := List.forall_mem_singleton.mp hlast
        have hend : sectionEnd stop heading.level (between ++ other :: after) =
            sectionEnd stop heading.level after := by
          rw [sectionEnd_append hbetween, sectionEnd_cons, if_neg (Nat.not_le_of_lt hlevel)]
        refine .inr ⟨hother, ?_, hlevel⟩
        change sectionEnd stop other.level after ≤ sectionEnd stop heading.level _
        rw [hend]
        exact sectionEnd_anti h.tail.drop.tail (Nat.le_of_lt hlevel)
      · exact .inl (Nat.le_of_not_lt hin)

-- Every place behind the first heading is in a section, that of the last heading before it at least.
theorem exists_sectionsOf_has (h : Heading.InOrder stop (heading :: hs))
    (hfirst : heading.start ≤ position) (hlast : position < stop) :
    ∃ own ∈ sectionsOf stop (heading :: hs), own.range.Has position := by
  induction hs generalizing heading with
  | nil => exact ⟨_, List.mem_cons_self .., hfirst, hlast⟩
  | cons next rest ih =>
      by_cases hnext : next.start ≤ position
      · obtain ⟨own, hown, hhas⟩ := ih h.tail hnext
        exact ⟨own, List.mem_cons_of_mem _ hown, hhas⟩
      · refine ⟨_, List.mem_cons_self .., hfirst, Nat.lt_of_lt_of_le (Nat.lt_of_not_le hnext) ?_⟩
        refine le_sectionEnd (Nat.le_of_lt (h.inside next (by simp))) ?_
        exact List.forall_mem_cons.mpr
          ⟨Nat.le_refl _, fun later hlater => Nat.le_of_lt (h.tail.head later hlater)⟩

end Hierarchy

section Outermost

variable {position : Nat} {found : List Section} {own other : Section}
  (hordered : found.Pairwise fun first later => first.range.start < later.range.start)

include hordered

-- The first section that has a place lies in no other one.
theorem exists_outermost_has (h : ∃ own ∈ found, own.range.Has position) :
    ∃ own, Outermost found own ∧ own.range.Has position := by
  induction found with
  | nil => exact absurd h (by simp)
  | cons first rest ih =>
      obtain ⟨hfirst, hrest⟩ := List.pairwise_cons.mp hordered
      by_cases hhas : first.range.Has position
      · refine ⟨first, ⟨List.mem_cons_self .., fun other hother hwithin => ?_⟩, hhas⟩
        rcases List.mem_cons.mp hother with rfl | hother
        · rfl
        · exact absurd (hfirst other hother) (Nat.not_lt_of_le hwithin.1)
      · have hlater : ∃ own ∈ rest, own.range.Has position := by
          obtain ⟨own, hown, hownHas⟩ := h
          rcases List.mem_cons.mp hown with rfl | hown
          · exact absurd hownHas hhas
          · exact ⟨own, hown, hownHas⟩
        obtain ⟨own, ⟨hown, halone⟩, hownHas⟩ := ih hrest hlater
        refine ⟨own, ⟨List.mem_cons_of_mem _ hown, fun other hother hwithin => ?_⟩, hownHas⟩
        rcases List.mem_cons.mp hother with rfl | hother
        · have hin := Nat.lt_of_lt_of_le hownHas.2 hwithin.2
          exact absurd ⟨Nat.le_trans hwithin.1 hownHas.1, hin⟩ hhas
        · exact halone other hother hwithin

omit hordered in
theorem eq_of_outermost (hnested : found.Pairwise Section.Nests) (hown : Outermost found own)
    (hother : Outermost found other) (hhas : own.range.Has position)
    (hhas' : other.range.Has position) : own = other := by
  by_contra hne
  have : Std.Symm fun first later : Section => first.Nests later ∨ later.Nests first :=
    ⟨fun first later h => h.symm⟩
  have heither : found.Pairwise fun first later => first.Nests later ∨ later.Nests first :=
    hnested.imp .inl
  rcases heither.forall hown.1 hother.1 hne with h | h
  · rcases h with hapart | hin
    · exact absurd (Nat.le_trans hapart hhas'.1) (Nat.not_le_of_lt hhas.2)
    · exact hne (hother.2 own hown.1 ⟨Nat.le_of_lt hin.1, hin.2.1⟩)
  · rcases h with hapart | hin
    · exact absurd (Nat.le_trans hapart hhas.1) (Nat.not_le_of_lt hhas'.2)
    · exact hne (hown.2 other hother.1 ⟨Nat.le_of_lt hin.1, hin.2.1⟩).symm

end Outermost

-- Markdown finds the headings of a text in order, each at a place of its own.
theorem inOrder_headings (text : List Char) : Heading.InOrder (byteCount text) (headings text) := by
  obtain ⟨-, -, hapart, hinside⟩ := Markdown.lays_blocks text
  rw [← map_start_headings] at hapart hinside
  rw [Nat.zero_add] at hinside
  exact ⟨List.pairwise_map.mp hapart, List.forall_mem_map.mp hinside⟩

theorem reported_sections (text : List Char) :
    (sections text).map (fun own => (own.range.start, own.level, own.name.toList)) =
      (Markdown.blocks text).1.filterMap (Markdown.Leaf.reported? (Markdown.blocks text).2) := by
  have hnamed := congrArg (List.map fun own => (own.2.2, own.2.1, own.1.toList))
    (map_sectionsOf (byteCount text) (headings text))
  rw [List.map_map, List.map_map] at hnamed
  refine hnamed.trans ?_
  rw [headings]
  dsimp only
  rw [List.map_filterMap]
  congr 1
  funext leaf
  cases leaf <;> simp [Markdown.Leaf.reported?]

-- The sections of a text form a hierarchy.
theorem sections_form_hierarchy (text : List Char) : Hierarchy text (sections text) := by
  have hin := inOrder_headings text
  refine ⟨reported_sections text, ordered_sectionsOf hin, inside_sectionsOf hin,
    fun front outer between inner rest hsplit => contains_sectionsOf hin hsplit,
    nested_sectionsOf hin, fun first hfirst position hstart hlast => ?_⟩
  rw [sections] at hfirst ⊢
  cases hheadings : headings text with
  | nil =>
      rw [hheadings] at hfirst
      cases hfirst
  | cons heading rest =>
      rw [hheadings] at hin hfirst
      cases hfirst
      obtain ⟨own, hown, hhas⟩ := exists_outermost_has (ordered_sectionsOf hin)
        (exists_sectionsOf_has hin hstart hlast)
      exact ⟨own, ⟨hown, hhas⟩, fun other hother =>
        eq_of_outermost (nested_sectionsOf hin) hother.1 hown hother.2 hhas⟩

-- A heading that is shallower than the first one ends its section, and so does one of its own level. A
-- level may be skipped.
theorem shallower_heading_ends_section :
    (Markdown.blocks "## B\n#### C\n## D\nd\n# A\n".toList).1 =
        [.heading 0 2 ['B'], .heading 5 4 ['C'], .heading 12 2 ['D'], .heading 19 1 ['A']] ∧
      sections "## B\n#### C\n## D\nd\n# A\n".toList =
        [⟨"B", 2, ⟨0, 12⟩⟩, ⟨"C", 4, ⟨5, 12⟩⟩, ⟨"D", 2, ⟨12, 19⟩⟩, ⟨"A", 1, ⟨19, 23⟩⟩] ∧
      Hierarchy "## B\n#### C\n## D\nd\n# A\n".toList
        [⟨"B", 2, ⟨0, 12⟩⟩, ⟨"C", 4, ⟨5, 12⟩⟩, ⟨"D", 2, ⟨12, 19⟩⟩, ⟨"A", 1, ⟨19, 23⟩⟩] := by
  have hsections : sections "## B\n#### C\n## D\nd\n# A\n".toList =
      [⟨"B", 2, ⟨0, 12⟩⟩, ⟨"C", 4, ⟨5, 12⟩⟩, ⟨"D", 2, ⟨12, 19⟩⟩, ⟨"A", 1, ⟨19, 23⟩⟩] := by
    decide +kernel
  exact ⟨by decide +kernel, hsections, hsections ▸ sections_form_hierarchy _⟩

end LiveDoc
