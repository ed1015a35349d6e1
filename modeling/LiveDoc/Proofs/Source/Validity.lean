import LiveDoc.Document.Error
import LiveDoc.Proofs.Source.Growth
import LiveDoc.Proofs.Text.Cut

namespace LiveDoc

open Text

-- A range of a text whose first byte is at `offset`, and what stands there.
def ByteRange.Holds (range : ByteRange) (offset : Nat) (text inside : List Char) : Prop :=
  ∃ before after, text = before ++ inside ++ after ∧
    range = ⟨offset + byteCount before, offset + byteCount before + byteCount inside⟩

section Holds

variable {range : ByteRange} {offset : Nat} {text inside : List Char}

theorem holds_whole (offset : Nat) (text : List Char) :
    ByteRange.Holds ⟨offset, offset + byteCount text⟩ offset text text :=
  ⟨[], [], by simp, rfl⟩

theorem ByteRange.Holds.behind (front : List Char)
    (h : range.Holds (offset + byteCount front) text inside) :
    range.Holds offset (front ++ text) inside := by
  obtain ⟨before, after, rfl, rfl⟩ := h
  exact ⟨front ++ before, after, by simp, by simp [Nat.add_assoc]⟩

theorem ByteRange.Holds.within (h : range.Holds offset text inside) (back : List Char) :
    range.Holds offset (text ++ back) inside := by
  obtain ⟨before, after, rfl, rfl⟩ := h
  exact ⟨before, after ++ back, by simp, rfl⟩

end Holds

-- A span of a registered text: what stands there is cut out on whole characters, and its line is
-- one more than the newlines before it.
def Span.Holds (span : Span) (map : SourceMap) (inside : List Char) : Prop :=
  ∃ source before after, map.get? span.source = some source ∧
    source.text.toList = before ++ inside ++ after ∧
    span.range = ⟨byteCount before, byteCount (before ++ inside)⟩ ∧
    span.line = 1 + before.count '\n'

def Span.Valid (span : Span) (map : SourceMap) : Prop := ∃ inside, span.Holds map inside

section Spans

variable {map next : SourceMap} {span : Span} {inside : List Char} {source : Source} {id : Nat}

theorem Span.Holds.valid (h : span.Holds map inside) : span.Valid map := ⟨inside, h⟩

theorem holds_spanOf {range : ByteRange} (hsource : map.get? id = some source)
    (h : range.Holds 0 source.text.toList inside) :
    (Span.of source.text.toList id range).Holds map inside := by
  obtain ⟨before, after, htext, rfl⟩ := h
  refine ⟨source, before, after, hsource, htext, ?_, ?_⟩
  · simp [Span.of]
  · rw [Span.of, htext]
    simp only [lineAt, Nat.zero_add]
    rw [List.append_assoc, takeBytes_byteCount, Nat.add_comm]

-- A part of a line stands on that line.
theorem holds_of_sameLine {range : ByteRange} {before lead after : List Char}
    (hsource : map.get? id = some source)
    (htext : source.text.toList = before ++ (lead ++ inside) ++ after) (hlead : '\n' ∉ lead)
    (hrange : range = ⟨byteCount (before ++ lead), byteCount (before ++ lead ++ inside)⟩)
    {line : Nat} (hline : line = 1 + before.count '\n') :
    Span.Holds ⟨id, range, line⟩ map inside := by
  refine ⟨source, before ++ lead, after, hsource, ?_, ?_, ?_⟩
  · simpa using htext
  · cases range
    simp_all
  · rw [List.count_append, List.count_eq_zero_of_not_mem hlead]
    exact hline

theorem SourceMap.get?_of_prefix (h : map.sources <+: next.sources)
    (hsource : map.get? id = some source) : next.get? id = some source := by
  obtain ⟨more, hmore⟩ := h
  rw [SourceTable.get?, ← hmore]
  have hlt := (List.getElem?_eq_some_iff.mp hsource).1
  exact (List.getElem?_append_left hlt).trans hsource

theorem Span.Holds.later (h : span.Holds map inside) (hnext : map.sources <+: next.sources) :
    span.Holds next inside := by
  obtain ⟨source, before, after, hsource, hrest⟩ := h
  exact ⟨source, before, after, SourceMap.get?_of_prefix hnext hsource, hrest⟩

theorem Span.Valid.later (h : span.Valid map) (hnext : map.sources <+: next.sources) :
    span.Valid next := by
  obtain ⟨inside, hinside⟩ := h
  exact ⟨inside, hinside.later hnext⟩

end Spans

theorem SourceMap.Grows.isPrefix {tree : FileTree} {map next : SourceMap} (h : map.Grows tree next) :
    map.sources <+: next.sources := by
  induction h with
  | refl => exact List.prefix_rfl
  | push _ _ ih =>
      rw [sources_push] at ih
      exact (List.prefix_append _ _).trans ih

end LiveDoc
