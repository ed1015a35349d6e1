import LiveDoc.Markdown.Container
import LiveDoc.Proofs.Text.Cut

namespace LiveDoc.Markdown

open Text

-- One margin comes from another by reading characters of one kind.
def Margin.Skips (kind : Char → Prop) (m next : Margin) : Prop :=
  ∃ lead, m.rest = lead ++ next.rest ∧ next.read = m.read + lead.length ∧ ∀ c ∈ lead, kind c

-- Everything that a margin is made of takes one byte, so that its characters count the bytes.
def IsNarrow (c : Char) : Prop := c.utf8Size = 1

-- Nor does a margin go on behind the end of its line.
def IsSign (c : Char) : Prop := IsNarrow c ∧ isLineEnd c = false

def IsPad (c : Char) : Prop := c = ' ' ∨ c = '\t'

theorem isSign_of_isPad {c : Char} (h : IsPad c) : IsSign c := by
  rcases h with rfl | rfl <;> exact ⟨rfl, rfl⟩

theorem isSign_of_isDigit {c : Char} (h : c.isDigit) : IsSign c := by
  have hdigit := h
  simp only [Char.isDigit, ge_iff_le, Bool.and_eq_true, decide_eq_true_eq,
    UInt32.le_iff_toNat_le] at h
  constructor
  · rw [IsNarrow, Char.utf8Size_eq_one_iff, UInt32.le_iff_toNat_le]
    have h9 : '9'.val.toNat = 57 := rfl
    have h127 : (127 : UInt32).toNat = 127 := rfl
    omega
  · simp only [isLineEnd, Bool.or_eq_false_iff, beq_eq_false_iff_ne]
    constructor <;> rintro rfl <;> cases hdigit

theorem isSign_of_isBullet {c : Char} (h : isBullet c) : IsSign c := by
  simp only [isBullet, Bool.or_eq_true, beq_iff_eq] at h
  rcases h with (rfl | rfl) | rfl <;> exact ⟨rfl, rfl⟩

-- What can stand before the code on a line of a block: the marks of quotes, and blanks.
def IsMargin (c : Char) : Prop := c = '>' ∨ IsPad c

-- What stands in front of a block on its first line: bullets and the numbers of items too.
def IsLead (c : Char) : Prop :=
  IsMargin c ∨ isBullet c = true ∨ c.isDigit = true ∨ c = '.' ∨ c = ')'

theorem isSign_of_isLead {c : Char} (h : IsLead c) : IsSign c := by
  rcases h with (rfl | h) | h | h | rfl | rfl
  · exact ⟨rfl, rfl⟩
  · exact isSign_of_isPad h
  · exact isSign_of_isBullet h
  · exact isSign_of_isDigit h
  · exact ⟨rfl, rfl⟩
  · exact ⟨rfl, rfl⟩

theorem byteCount_of_narrow {lead : List Char} (h : ∀ c ∈ lead, IsNarrow c) :
    byteCount lead = lead.length := by
  induction lead with
  | nil => rfl
  | cons c rest ih =>
      have hc : c.utf8Size = 1 := h c (List.mem_cons_self ..)
      have hr := ih fun d hd => h d (List.mem_cons_of_mem _ hd)
      simp only [byteCount_cons, List.length_cons]
      omega

namespace Margin.Skips

variable {kind : Char → Prop} {m next last : Margin}

theorem refl (m : Margin) : Skips kind m m := ⟨[], by simp⟩

theorem trans (h : Skips kind m next) (h' : Skips kind next last) : Skips kind m last := by
  obtain ⟨lead, hrest, hread, hkind⟩ := h
  obtain ⟨more, hrest', hread', hkind'⟩ := h'
  refine ⟨lead ++ more, ?_, ?_, ?_⟩
  · rw [hrest, hrest', List.append_assoc]
  · rw [hread', hread, List.length_append, Nat.add_assoc]
  · intro c hc
    rcases List.mem_append.mp hc with hc | hc
    · exact hkind c hc
    · exact hkind' c hc

theorem mono {wider : Char → Prop} (h : Skips kind m next) (hw : ∀ c, kind c → wider c) :
    Skips wider m next := by
  obtain ⟨lead, hrest, hread, hkind⟩ := h
  exact ⟨lead, hrest, hread, fun c hc => hw c (hkind c hc)⟩

theorem margin (h : Skips IsPad m next) : Skips IsMargin m next :=
  h.mono fun _ => .inr

theorem lead (h : Skips IsMargin m next) : Skips IsLead m next :=
  h.mono fun _ => .inl

theorem sign (h : Skips IsLead m next) : Skips IsSign m next :=
  h.mono fun _ => isSign_of_isLead

theorem advance (lead : List Char) {rest : List Char} (h : m.rest = lead ++ rest) (hk : ∀ c ∈ lead, kind c) :
    Skips kind m (m.advance lead.length) := by
  refine ⟨lead, ?_, rfl, hk⟩
  rw [Margin.advance, h, List.drop_left]

theorem read_le (h : Skips kind m next) : m.read ≤ next.read := by
  obtain ⟨lead, -, hread, -⟩ := h
  omega

end Margin.Skips

open Margin

theorem skips_spacesAhead (want : Nat) (m : Margin) : Skips IsPad m (m.spacesAhead want).2 := by
  fun_induction Margin.spacesAhead want m with
  | case1 => exact .refl _
  | case2 m missing rest hrest ih =>
      have hs : Skips IsPad m (m.advance 1) :=
        Skips.advance [' '] hrest (by simp [IsPad])
      exact hs.trans ih
  | case3 m missing rest hrest columns used next ih =>
      have hs : Skips IsPad m (m.advance 1) :=
        Skips.advance ['\t'] hrest (by simp [IsPad])
      exact hs.trans ih
  | case4 => exact .refl _

theorem skips_spaces (want : Nat) (m : Margin) : Skips IsPad m (m.spaces want).2 := by
  exact skips_spacesAhead _ { m with pending := m.pending - min m.pending want }

theorem skips_indent (limit : Nat) (m : Margin) : Skips IsPad m (m.indent limit).2 :=
  skips_spaces limit m

theorem skips_quoteMarker? {m next : Margin} (h : quoteMarker? m = some next) :
    Skips IsMargin m next := by
  unfold quoteMarker? at h
  split at h
  · rename_i rest hrest
    cases h
    have hs : Skips IsMargin m (m.advance 1) :=
      Skips.advance ['>'] hrest (List.forall_mem_singleton.mpr (.inl rfl))
    exact hs.trans (skips_spaces 1 _).margin
  · cases h

theorem skips_markerSpace {m next : Margin} (h : markerSpace m = some next) :
    Skips IsPad m next := by
  have hs := skips_spaces 1 m
  simp only [markerSpace] at h
  split at h
  · cases h
    exact hs
  · cases h

theorem skips_finishMarker (mark : Char) (start indent : Nat) (m : Margin) :
    Skips IsPad m (finishMarker mark start indent m).2 := by
  unfold finishMarker
  split
  · exact .refl _
  · have hs := skips_indent 4 m
    dsimp only
    split
    · exact hs
    · exact .refl _

-- A list marker takes its own sign, so that it is never empty.
theorem skips_marker {m middle next : Margin} (lead : List Char) {rest : List Char} {mark : Char}
    {start indent : Nat} {marker : ListMarker} (hrest : m.rest = lead ++ rest) (hne : lead ≠ [])
    (hk : ∀ c ∈ lead, IsLead c) (hs : markerSpace (m.advance lead.length) = some middle)
    (hf : finishMarker mark start indent middle = (marker, next)) :
    Skips IsLead m next ∧ m.read < next.read := by
  have hmarks : Skips IsLead m (m.advance lead.length) := Skips.advance lead hrest hk
  have hspace := (skips_markerSpace hs).margin.lead
  have hfinish := (skips_finishMarker mark start indent middle).margin.lead
  rw [hf] at hfinish
  have hlead := List.length_pos_iff.mpr hne
  have hread : (m.advance lead.length).read = m.read + lead.length := rfl
  have hlater := (hspace.trans hfinish).read_le
  refine ⟨hmarks.trans (hspace.trans hfinish), ?_⟩
  dsimp only at hlater
  omega

theorem skips_listMarker? {indent : Nat} {m next : Margin} {marker : ListMarker}
    (h : listMarker? indent m = some (marker, next)) :
    Skips IsLead m next ∧ m.read < next.read := by
  unfold listMarker? at h
  split at h
  · cases h
  · rename_i c rest hrest
    split at h
    · rename_i hbullet
      split at h
      · cases h
      · obtain ⟨middle, hs, hf⟩ := Option.map_eq_some_iff.mp h
        refine skips_marker [c] hrest (List.cons_ne_nil c []) ?_ hs hf
        intro d hd
        cases List.mem_singleton.mp hd
        exact .inr (.inl hbullet)
    · dsimp only at h
      split at h
      · cases h
      · split at h
        · rename_i d tail hdrop
          split at h
          · rename_i hdelimiter
            obtain ⟨middle, hs, hf⟩ := Option.map_eq_some_iff.mp h
            have hdigits :=
              List.prefix_iff_eq_append.mp (List.takeWhile_prefix (l := m.rest) Char.isDigit)
            have hlead : m.rest = (m.rest.takeWhile Char.isDigit ++ [d]) ++ tail := by
              rw [List.append_assoc, List.singleton_append, ← hdrop, hdigits]
            refine skips_marker _ hlead (by simp) ?_ (by simpa using hs) hf
            intro x hx
            rcases List.mem_append.mp hx with hx | hx
            · exact .inr (.inr (.inl (List.all_eq_true.mp List.all_takeWhile x hx)))
            · cases List.mem_singleton.mp hx
              exact .inr (.inr (.inr hdelimiter))
          · cases h
        · cases h

theorem skips_enter? {container : Container} {m next : Margin}
    (h : container.enter? m = some next) : Skips IsMargin m next := by
  cases container with
  | quote =>
      exact (skips_spaces 3 m).margin.trans (skips_quoteMarker? h)
  | list mark tight =>
      cases h
      exact .refl m
  | item indent =>
      have hs := (skips_spaces indent m).margin
      simp only [Container.enter?] at h
      split at h
      · cases h
        exact hs
      · cases h

theorem skips_enterAll (containers : List Container) (m : Margin) :
    Skips IsMargin m (enterAll containers m).2 := by
  induction containers generalizing m with
  | nil => exact .refl m
  | cons container inner ih =>
      unfold enterAll
      cases h : container.enter? m with
      | none => exact .refl m
      | some next => exact (skips_enter? h).trans (ih next)

-- A line that ends where its containers have been opened has opened an item.
theorem skips_openNew (f : Frame) (m : Margin) :
    Skips IsLead m (f.openNew m).2.1 ∧
      ((f.openNew m).2.2 = true → m.read < (f.openNew m).2.1.read) := by
  induction hn : m.rest.length using Nat.strongRecOn generalizing f m with
  | _ n ih =>
      have hindent := (skips_indent 4 m).margin.lead
      rw [Frame.openNew]
      rcases hi : m.indent 4 with ⟨columns, inner⟩
      rw [hi] at hindent
      dsimp only at hindent ⊢
      split
      · simpa using Skips.refl m
      · split
        · rename_i marker next hmarker
          obtain ⟨hskips, hlt⟩ := skips_listMarker? hmarker
          have hnext := hindent.trans hskips
          have hle := hindent.read_le
          split
          · exact ⟨hnext, fun _ => by dsimp only; omega⟩
          · split
            · rename_i hshort
              obtain ⟨hs, hd⟩ := ih _ (by omega) ((f.enterList marker.mark).push (.item marker.indent))
                next rfl
              refine ⟨hnext.trans hs, fun h => ?_⟩
              have := hd h
              omega
            · simpa using hnext
        · split
          · rename_i next hquote
            have hnext := hindent.trans (skips_quoteMarker? hquote).lead
            have hle := hnext.read_le
            split
            · rename_i hshort
              obtain ⟨hs, hd⟩ := ih _ (by omega) (f.leaveList.push .quote) next rfl
              refine ⟨hnext.trans hs, fun h => ?_⟩
              have := hd h
              omega
            · simpa using hnext
          · simpa using Skips.refl m

end LiveDoc.Markdown
