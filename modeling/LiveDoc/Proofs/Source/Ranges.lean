import LiveDoc.Proofs.Text.Cut
import LiveDoc.Source.Span

namespace LiveDoc.ByteRange

open Text

-- Ranges that lie one after the other in a text, each with something in it. The text starts at
-- `position`.
inductive Laid : Nat → List Char → List ByteRange → Prop
  | nil (position : Nat) (text : List Char) : Laid position text []
  | cons {position : Nat} {gap body rest : List Char} {more : List ByteRange} :
      body ≠ [] → Laid (position + byteCount gap + byteCount body) rest more →
      Laid position (gap ++ (body ++ rest))
        (⟨position + byteCount gap, position + byteCount gap + byteCount body⟩ :: more)

theorem Laid.head {position : Nat} {body rest : List Char} {more : List ByteRange}
    (hb : body ≠ []) (h : Laid (position + byteCount body) rest more) :
    Laid position (body ++ rest) (⟨position, position + byteCount body⟩ :: more) := by
  have hl := @Laid.cons position [] body rest more hb (by simpa using h)
  simpa using hl

-- Text before the ranges changes nothing but where they start to be looked for.
theorem Laid.prepend {position : Nat} {text : List Char} {ranges : List ByteRange}
    (front : List Char) (h : Laid (position + byteCount front) text ranges) :
    Laid position (front ++ text) ranges := by
  cases h with
  | nil => exact .nil position _
  | @cons _ gap body rest more hb hm =>
      have hl := @Laid.cons position (front ++ gap) body rest more hb
        (by simpa [Nat.add_assoc] using hm)
      simpa [Nat.add_assoc] using hl

theorem Laid.append {position : Nat} {front back : List Char} {ranges more : List ByteRange}
    (hf : Laid position front ranges) (hb : Laid (position + byteCount front) back more) :
    Laid position (front ++ back) (ranges ++ more) := by
  induction hf with
  | nil => exact hb.prepend _
  | cons hne _ ih =>
      rw [List.cons_append, List.append_assoc, List.append_assoc]
      exact .cons hne (ih (by simpa [Nat.add_assoc] using hb))

-- Text that stands before the first range can be left out.
theorem Laid.drop_front {position : Nat} {front rest : List Char} {ranges : List ByteRange}
    (h : Laid position (front ++ rest) ranges)
    (hle : ∀ r ∈ ranges.head?, position + byteCount front ≤ r.start) :
    Laid (position + byteCount front) rest ranges := by
  generalize htext : front ++ rest = text at h
  cases h with
  | nil => exact .nil _ rest
  | @cons _ gap body after more hne hm =>
      have hstart := hle _ rfl
      have hf : front <+: gap ++ (body ++ after) := ⟨rest, htext⟩
      obtain ⟨gap', rfl⟩ := prefix_of_byteCount_le hf (List.prefix_append _ _) (by
        dsimp only at hstart
        omega)
      rw [List.append_assoc] at htext
      rw [List.append_cancel_left htext]
      have hl := @Laid.cons (position + byteCount front) gap' body after more hne
        (by simpa [Nat.add_assoc] using hm)
      simpa [Nat.add_assoc] using hl

-- Positions of a text, in order, that cut no character. The text starts at `position`.
inductive Marked : Nat → List Char → List Nat → Prop
  | nil (position : Nat) (text : List Char) : Marked position text []
  | cons {position : Nat} {gap rest : List Char} {more : List Nat} :
      Marked (position + byteCount gap) rest more →
      Marked position (gap ++ rest) ((position + byteCount gap) :: more)

theorem marked_start (position : Nat) (text : List Char) : Marked position text [position] := by
  have hmarked := @Marked.cons position [] text [] (.nil _ _)
  simpa using hmarked

theorem Marked.prepend {position : Nat} {text : List Char} {starts : List Nat} (front : List Char)
    (h : Marked (position + byteCount front) text starts) : Marked position (front ++ text) starts := by
  cases h with
  | nil => exact .nil position _
  | @cons _ gap rest more hmore =>
      have hmarked := @Marked.cons position (front ++ gap) rest more
        (by simpa [Nat.add_assoc] using hmore)
      simpa [Nat.add_assoc] using hmarked

theorem Marked.append {position : Nat} {front back : List Char} {starts more : List Nat}
    (hfront : Marked position front starts) (hback : Marked (position + byteCount front) back more) :
    Marked position (front ++ back) (starts ++ more) := by
  induction hfront with
  | nil => exact hback.prepend _
  | cons _ ih =>
      rw [List.cons_append, List.append_assoc]
      exact .cons (ih (by simpa [Nat.add_assoc] using hback))

theorem Marked.exists_of_cons {position start : Nat} {text : List Char} {more : List Nat}
    (h : Marked position text (start :: more)) :
    ∃ gap rest, text = gap ++ rest ∧ start = position + byteCount gap ∧ Marked start rest more := by
  cases h with
  | @cons _ gap rest _ hmore => exact ⟨gap, rest, rfl, rfl, hmore⟩

theorem Marked.exists_of_mem {position : Nat} {text : List Char} {starts : List Nat}
    (h : Marked position text starts) :
    ∀ start ∈ starts, ∃ before after, text = before ++ after ∧ start = position + byteCount before := by
  induction h with
  | nil => exact fun _ hmem => nomatch hmem
  | @cons _ gap rest _ _ ih =>
      refine List.forall_mem_cons.mpr ⟨⟨gap, rest, rfl, rfl⟩, fun start hmem => ?_⟩
      obtain ⟨before, after, rfl, rfl⟩ := ih start hmem
      exact ⟨gap ++ before, after, by simp, by simp [Nat.add_assoc]⟩

end LiveDoc.ByteRange
