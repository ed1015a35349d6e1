import LiveDoc.Proofs.Document.Classification
import Mathlib.Data.List.Basic

namespace LiveDoc

-- What the known ones of some tags mean, with and without the tags.
def Registry.meanings (registry : Registry) (tags : List String) : List Modifier :=
  tags.filterMap registry.lookup?

def Registry.resolved (registry : Registry) (tags : List String) : List (String × Modifier) :=
  tags.filterMap fun tag => (registry.lookup? tag).map (tag, ·)

-- Tags that are all known, no two of them in conflict.
structure Registry.Accepts (registry : Registry) (tags : List String) : Prop where
  known : ∀ tag ∈ tags, registry.lookup? tag ≠ none
  apart : ∀ a ∈ registry.meanings tags, ∀ b ∈ registry.meanings tags, a.conflicts b = false

-- What is wrong with tags, by the first one that is unknown or conflicts with one before it.
inductive TagFault (registry : Registry) (span : Span) (tags : List String) : DocumentError → Prop
  | unknown {before after : List String} {tag : String} :
      tags = before ++ tag :: after → registry.Accepts before → registry.lookup? tag = none →
      TagFault registry span tags (.unknownModifier tag registry.known span)
  | conflict {before earlier between after : List String} {first tag : String}
      {own modifier : Modifier} :
      tags = before ++ tag :: after → registry.Accepts before →
      registry.lookup? tag = some modifier → before = earlier ++ first :: between →
      registry.lookup? first = some own → own.conflicts modifier = true →
      (∀ a ∈ registry.meanings earlier, a.conflicts modifier = false) →
      TagFault registry span tags (.conflict (.tag first) tag span)

section Tags

variable {registry : Registry} {span : Span} {tags front : List String}

theorem meanings_append (registry : Registry) (front back : List String) :
    registry.meanings (front ++ back) = registry.meanings front ++ registry.meanings back :=
  List.filterMap_append

theorem meanings_singleton {tag : String} {modifier : Modifier}
    (h : registry.lookup? tag = some modifier) : registry.meanings [tag] = [modifier] :=
  List.filterMap_cons_some h

theorem mem_meanings {m : Modifier} :
    m ∈ registry.meanings tags ↔ ∃ tag ∈ tags, registry.lookup? tag = some m := List.mem_filterMap

theorem resolved_append (registry : Registry) (front back : List String) :
    registry.resolved (front ++ back) = registry.resolved front ++ registry.resolved back :=
  List.filterMap_append

theorem meanings_eq_map (registry : Registry) (tags : List String) :
    (registry.resolved tags).map (·.2) = registry.meanings tags := by
  rw [Registry.resolved, Registry.meanings, List.map_filterMap]
  refine List.filterMap_congr fun tag _ => ?_
  cases registry.lookup? tag <;> rfl

theorem find?_resolved_eq_none {p : Modifier → Bool}
    (h : (registry.resolved tags).find? (fun entry => p entry.2) = none) :
    ∀ m ∈ registry.meanings tags, p m = false := by
  intro m hm
  rw [← meanings_eq_map] at hm
  obtain ⟨entry, hentry, rfl⟩ := List.mem_map.mp hm
  simpa using List.find?_eq_none.mp h entry hentry

-- The first tag whose meaning has a property.
theorem exists_of_find?_resolved {p : Modifier → Bool} {first : String} {own : Modifier}
    (h : (registry.resolved tags).find? (fun entry => p entry.2) = some (first, own)) :
    ∃ earlier between, tags = earlier ++ first :: between ∧ registry.lookup? first = some own ∧
      p own = true ∧ ∀ m ∈ registry.meanings earlier, p m = false := by
  obtain ⟨hown, before, behind, hsplit, hbefore⟩ := List.find?_eq_some_iff_append.mp h
  obtain ⟨front, back, rfl, rfl, hback⟩ := List.filterMap_eq_append_iff.mp hsplit
  obtain ⟨idle, tag, between, rfl, hidle, htag, -⟩ := List.filterMap_eq_cons_iff.mp hback
  obtain ⟨modifier, hlookup, hentry⟩ := Option.map_eq_some_iff.mp htag
  cases hentry
  refine ⟨front ++ idle, between, by rw [List.append_assoc], hlookup, hown, fun m hm => ?_⟩
  obtain ⟨other, hother, hmeans⟩ := mem_meanings.mp hm
  rcases List.mem_append.mp hother with hother | hother
  · have hentry : (other, m) ∈ front.filterMap fun tag => (registry.lookup? tag).map (tag, ·) :=
      List.mem_filterMap.mpr ⟨other, hother, by rw [hmeans]; rfl⟩
    simpa using hbefore _ hentry
  · have hnone := hidle other hother
    rw [hmeans] at hnone
    cases hnone

theorem accepts_nil (registry : Registry) : registry.Accepts [] where
  known _ h := nomatch h
  apart _ h := nomatch h

theorem Registry.Accepts.concat {tag : String} {modifier : Modifier} (h : registry.Accepts front)
    (htag : registry.lookup? tag = some modifier)
    (hfree : ∀ a ∈ registry.meanings front, a.conflicts modifier = false) :
    registry.Accepts (front ++ [tag]) where
  known other hother := by
    rcases List.mem_append.mp hother with hother | hother
    · exact h.known other hother
    · cases List.mem_singleton.mp hother
      rw [htag]
      exact Option.some_ne_none modifier
  apart a ha b hb := by
    rw [meanings_append, meanings_singleton htag, List.mem_append, List.mem_singleton] at ha hb
    rcases ha with ha | rfl <;> rcases hb with hb | rfl
    · exact h.apart a ha b hb
    · exact hfree a ha
    · rw [Modifier.conflicts_comm]
      exact hfree b hb
    · exact Modifier.conflicts_self _

-- Tags behind some that are accepted already: all are accepted, or there is a first fault.
theorem resolveTags_cases (span : Span) (h : registry.Accepts front) (rest : List String) :
    registry.Accepts (front ++ rest) ∧
      resolveTags registry span (registry.resolved front) rest =
        .ok (registry.resolved (front ++ rest)) ∨
    ∃ error, TagFault registry span (front ++ rest) error ∧
      resolveTags registry span (registry.resolved front) rest = .error error := by
  induction rest generalizing front with
  | nil =>
      left
      rw [List.append_nil]
      exact ⟨h, rfl⟩
  | cons tag rest ih =>
      cases htag : registry.lookup? tag with
      | none =>
          right
          refine ⟨_, .unknown rfl h htag, ?_⟩
          simp only [resolveTags, htag]
      | some modifier =>
          cases hfind : (registry.resolved front).find? fun earlier =>
              earlier.2.conflicts modifier with
          | some found =>
              right
              obtain ⟨first, own⟩ := found
              obtain ⟨earlier, between, rfl, hfirst, hconflict, hearlier⟩ :=
                exists_of_find?_resolved (p := fun a => a.conflicts modifier) hfind
              refine ⟨_, .conflict rfl h htag rfl hfirst hconflict hearlier, ?_⟩
              simp only [resolveTags, htag, hfind]
          | none =>
              have hfree := find?_resolved_eq_none (p := fun a => a.conflicts modifier) hfind
              have hresolved : registry.resolved (front ++ [tag]) =
                  registry.resolved front ++ [(tag, modifier)] := by
                rw [resolved_append]
                simp [Registry.resolved, htag]
              have hstep : resolveTags registry span (registry.resolved front) (tag :: rest) =
                  resolveTags registry span (registry.resolved (front ++ [tag])) rest := by
                simp only [resolveTags, htag, hfind, hresolved]
              rw [hstep, List.append_cons]
              exact ih (h.concat htag hfree)

theorem TagFault.not_accepts {error : DocumentError} (h : TagFault registry span tags error) :
    ¬ registry.Accepts tags := by
  rintro ⟨hknown, hapart⟩
  cases h with
  | unknown htags _ htag => exact hknown _ (by simp [htags]) htag
  | @conflict before earlier between after first tag own modifier htags _ htag hbefore hfirst
      hconflict _ =>
      have hown : own ∈ registry.meanings tags :=
        mem_meanings.mpr ⟨first, by simp [htags, hbefore], hfirst⟩
      have hmodifier : modifier ∈ registry.meanings tags :=
        mem_meanings.mpr ⟨tag, by simp [htags], htag⟩
      rw [hapart own hown modifier hmodifier] at hconflict
      cases hconflict

end Tags

-- A block that can be classified for a language.
structure CodeBlock.Acceptable (registry : Registry) (language : String) (block : CodeBlock) :
    Prop where
  tags : registry.Accepts block.tags
  idle : block.language ≠ some language →
    ∀ m ∈ registry.meanings block.tags, m.needsExecution = false

-- What its tags mean, and that a block of another language does not run.
def CodeBlock.annotated (registry : Registry) (language : String) (index : Nat)
    (block : CodeBlock) : CodeBlock :=
  { block with
    modifiers := .ofList <|
      if block.language = some language then registry.meanings block.tags
      else .noExec :: registry.meanings block.tags
    index }

-- What is wrong with a block that cannot be classified.
inductive CodeBlock.Fault (registry : Registry) (language : String) (block : CodeBlock) :
    DocumentError → Prop
  | tags {error : DocumentError} :
      TagFault registry block.span block.tags error → Fault registry language block error
  | language {earlier after : List String} {tag : String} {modifier : Modifier} :
      registry.Accepts block.tags → block.language ≠ some language →
      block.tags = earlier ++ tag :: after → registry.lookup? tag = some modifier →
      modifier.needsExecution = true →
      (∀ m ∈ registry.meanings earlier, m.needsExecution = false) →
      Fault registry language block (.conflict (.language block.language) tag block.span)

section Blocks

variable {registry : Registry} {language : String} {block : CodeBlock}

theorem classifyBlock_cases (registry : Registry) (language : String) (index : Nat)
    (block : CodeBlock) :
    block.Acceptable registry language ∧
      classifyBlock registry language index block = .ok (block.annotated registry language index) ∨
    ∃ error, block.Fault registry language error ∧
      classifyBlock registry language index block = .error error := by
  rcases resolveTags_cases block.span (accepts_nil registry) block.tags with
    ⟨haccepts, htags⟩ | ⟨error, hfault, htags⟩
  · have hseen : resolveTags registry block.span [] block.tags =
        .ok (registry.resolved block.tags) := htags
    simp only [classifyBlock, hseen, bind, Except.bind, meanings_eq_map]
    by_cases hlanguage : block.language = some language
    · left
      refine ⟨⟨haccepts, fun hother => (hother hlanguage).elim⟩, ?_⟩
      rw [if_pos hlanguage, CodeBlock.annotated, if_pos hlanguage]
    · rw [if_neg hlanguage]
      cases hfind : (registry.resolved block.tags).find? fun tag => tag.2.needsExecution with
      | some found =>
          right
          obtain ⟨tag, own⟩ := found
          obtain ⟨earlier, after, hsplit, htag, hneeds, hearlier⟩ :=
            exists_of_find?_resolved (p := Modifier.needsExecution) hfind
          exact ⟨_, .language haccepts hlanguage hsplit htag hneeds hearlier, rfl⟩
      | none =>
          left
          refine ⟨⟨haccepts, fun _ => find?_resolved_eq_none hfind⟩, ?_⟩
          rw [CodeBlock.annotated, if_neg hlanguage]
  · right
    have hseen : resolveTags registry block.span [] block.tags = .error error := htags
    refine ⟨error, .tags hfault, ?_⟩
    simp only [classifyBlock, hseen, bind, Except.bind]

theorem CodeBlock.Fault.not_acceptable {error : DocumentError}
    (h : block.Fault registry language error) : ¬ block.Acceptable registry language := by
  rintro ⟨htags, hidle⟩
  cases h with
  | tags hfault => exact hfault.not_accepts htags
  | @language earlier after tag modifier _ hother hsplit htag hneeds _ =>
      rw [hidle hother modifier (mem_meanings.mpr ⟨tag, by simp [hsplit], htag⟩)] at hneeds
      cases hneeds

end Blocks

end LiveDoc
