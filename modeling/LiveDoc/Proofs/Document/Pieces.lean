import LiveDoc.Document.Parser
import LiveDoc.Proofs.Source.Ranges

namespace LiveDoc

open Text

inductive PieceKind where
  | kept
  | mark (marker : Marker)
  | code (region : Region)
  deriving DecidableEq, Repr

-- A piece of a text with all that stands before it.
structure Piece where
  before : List Char
  text : List Char
  kind : PieceKind
  deriving DecidableEq, Repr

def Piece.range (piece : Piece) : ByteRange :=
  ⟨byteCount piece.before, byteCount piece.before + byteCount piece.text⟩

def atLineStart (before : List Char) : Bool := before.getLast?.all (· == '\n')

-- A line outside code. Only one that starts where a line of the text starts can be a mark.
def linePiece (before line : List Char) : Piece :=
  match if atLineStart before then marker? line else none with
  | some marker => ⟨before, line, .mark marker⟩
  | none => ⟨before, line, .kept⟩

def linePieces (before : List Char) : List (List Char) → List Piece
  | [] => []
  | line :: rest => linePiece before line :: linePieces (before ++ line) rest

-- Reads a text from left to right, code blocks whole and all else line by line. `before` has been
-- read and `rest` has not. A line ends with its newline, where code starts, or with the text.
def pieces (before rest : List Char) : List Region → List Piece
  | [] => linePieces before (lines rest)
  | region :: more =>
      let gap := takeBytes (region.range.start - byteCount before) rest
      let tail := dropBytes (region.range.start - byteCount before) rest
      let size := region.range.stop - region.range.start
      let code := takeBytes size tail
      linePieces before (lines gap) ++ ⟨before ++ gap, code, .code region⟩ ::
        pieces (before ++ gap ++ code) (dropBytes size tail) more

theorem pieces_cons (before : List Char) {gap code rest : List Char} {region : Region}
    (more : List Region)
    (hrange : region.range = ⟨byteCount before + byteCount gap,
      byteCount before + byteCount gap + byteCount code⟩) :
    pieces before (gap ++ (code ++ rest)) (region :: more) =
      linePieces before (lines gap) ++ ⟨before ++ gap, code, .code region⟩ ::
        pieces (before ++ gap ++ code) rest more := by
  simp only [pieces, hrange, Nat.add_sub_cancel_left, takeBytes_byteCount, dropBytes_byteCount]

theorem linePiece_before (before line : List Char) : (linePiece before line).before = before := by
  unfold linePiece
  split <;> rfl

theorem linePiece_text (before line : List Char) : (linePiece before line).text = line := by
  unfold linePiece
  split <;> rfl

-- The code blocks of what is left of a text, each with what stands between it and the one before.
inductive Located : List Char → List Char → List Region → Prop
  | nil (before rest : List Char) : Located before rest []
  | cons {before gap code rest : List Char} {region : Region} {more : List Region} :
      code ≠ [] →
      region.range = ⟨byteCount before + byteCount gap,
        byteCount before + byteCount gap + byteCount code⟩ →
      Located (before ++ gap ++ code) rest more →
      Located before (gap ++ (code ++ rest)) (region :: more)

theorem located_of_laid {before rest : List Char} {regions : List Region}
    (h : ByteRange.Laid (byteCount before) rest (regions.map Region.range)) :
    Located before rest regions := by
  induction regions generalizing before rest with
  | nil => exact .nil before rest
  | cons region more ih =>
      generalize hposition : byteCount before = position at h
      generalize hranges : (region :: more).map Region.range = ranges at h
      cases h with
      | nil => cases hranges
      | cons hne hmore =>
          obtain ⟨hrange, rfl⟩ := List.cons_eq_cons.mp hranges
          rw [← hposition] at hrange
          rw [← hposition, ← byteCount_append, ← byteCount_append] at hmore
          exact .cons hne hrange (ih hmore)

theorem flatMap_text_linePieces (before : List Char) (ls : List (List Char)) :
    (linePieces before ls).flatMap Piece.text = ls.flatten := by
  induction ls generalizing before with
  | nil => rfl
  | cons line rest ih =>
      simp only [linePieces, List.flatMap_cons, linePiece_text, ih, List.flatten_cons]

-- The pieces together are the text: nothing is lost and nothing is read twice.
theorem flatMap_text_pieces {before rest : List Char} {regions : List Region}
    (h : Located before rest regions) : (pieces before rest regions).flatMap Piece.text = rest := by
  induction h with
  | nil before rest => rw [pieces, flatMap_text_linePieces, flatten_lines]
  | cons _ hrange _ ih =>
      rw [pieces_cons _ _ hrange, List.flatMap_append, flatMap_text_linePieces,
        flatten_lines, List.flatMap_cons, ih]

theorem Located.bounds {before rest : List Char} {regions : List Region}
    (h : Located before rest regions) : ∀ r ∈ regions.map Region.range,
      byteCount before ≤ r.start ∧ r.start < r.stop := by
  induction h with
  | nil =>
      intro r hr
      cases hr
  | @cons before gap code rest region more hne hrange _ ih =>
      have hpos := byteCount_pos hne
      intro r hr
      rcases List.mem_cons.mp hr with rfl | hr
      · rw [hrange]
        dsimp only
        omega
      · have := ih r hr
        simp only [byteCount_append] at this
        omega

-- A stretch of a window that holds no code. It starts where a line of the text starts, where the
-- window starts or where code stops.
structure Outside (text : List Char) (window : ByteRange) (code : List ByteRange)
    (before stretch : List Char) : Prop where
  ofText : before ++ stretch <+: text
  inside : window.start ≤ byteCount before ∧ byteCount (before ++ stretch) ≤ window.stop
  first : byteCount before = window.start ∨ before.getLast? = some '\n' ∨
    ∃ r ∈ code, r.stop = byteCount before
  clear : ∀ r ∈ code, byteCount (before ++ stretch) ≤ r.start ∨ r.stop ≤ byteCount before

-- A stretch that stops where the window stops or where code starts.
structure IsGap (text : List Char) (window : ByteRange) (code : List ByteRange)
    (before gap : List Char) : Prop extends Outside text window code before gap where
  last : byteCount (before ++ gap) = window.stop ∨
    ∃ r ∈ code, r.start = byteCount (before ++ gap)

-- A stretch that is read as one line: it stops there or with the first newline.
structure IsLine (text : List Char) (window : ByteRange) (code : List ByteRange)
    (before line : List Char) : Prop extends Outside text window code before line where
  last : byteCount (before ++ line) = window.stop ∨ line.getLast? = some '\n' ∨
    ∃ r ∈ code, r.start = byteCount (before ++ line)
  unbroken : '\n' ∉ line.dropLast

section Lines

variable {text : List Char} {window : ByteRange} {code : List ByteRange}
  {before line before' line' : List Char}

-- A newline that is not the last character of a line would break it.
theorem newline_mem_dropLast {front back : List Char} (hlast : front.getLast? = some '\n')
    (hb : back ≠ []) : '\n' ∈ (front ++ back).dropLast := by
  rw [List.dropLast_append_of_ne_nil hb]
  exact List.mem_append_left _ (List.mem_of_getLast? hlast)

-- No line starts inside another.
theorem IsLine.not_start_inside (hcode : ∀ r ∈ code, r.start < r.stop)
    (h : IsLine text window code before line) (h' : IsLine text window code before' line')
    (hlt : byteCount before < byteCount before') :
    byteCount (before ++ line) ≤ byteCount before' := by
  refine Nat.le_of_not_lt fun hin => ?_
  rcases h'.first with hstart | hnewline | ⟨r, hr, hstop⟩
  · have := h.inside.1
    omega
  · have hp := (List.prefix_append before line).trans h.ofText
    have hp' := (List.prefix_append before' line').trans h'.ofText
    obtain ⟨middle, hmiddle, rfl⟩ := exists_append_of_byteCount_lt hp hp' hlt
    obtain ⟨back, hback, heq⟩ := exists_append_of_byteCount_lt hp' h.ofText hin
    rw [List.append_assoc] at heq
    rw [List.getLast?_append_of_ne_nil _ hmiddle] at hnewline
    apply h.unbroken
    rw [List.append_cancel_left heq]
    exact newline_mem_dropLast hnewline hback
  · have hr' := hcode r hr
    rcases h.clear r hr with hc | hc <;> omega

-- No line ends inside another.
theorem IsLine.not_stop_inside (hcode : ∀ r ∈ code, r.start < r.stop)
    (h : IsLine text window code before line) (h' : IsLine text window code before' line')
    (hlt : byteCount before' < byteCount (before ++ line)) :
    byteCount (before' ++ line') ≤ byteCount (before ++ line) := by
  refine Nat.le_of_not_lt fun hin => ?_
  rcases h.last with hstop | hnewline | ⟨r, hr, hstart⟩
  · have := h'.inside.2
    omega
  · have hp' := (List.prefix_append before' line').trans h'.ofText
    obtain ⟨front, hfront, heq⟩ := exists_append_of_byteCount_lt hp' h.ofText hlt
    obtain ⟨back, hback, heq'⟩ := exists_append_of_byteCount_lt h.ofText h'.ofText hin
    have hend : (before ++ line).getLast? = some '\n' := by
      rw [List.getLast?_append, hnewline]
      rfl
    rw [heq, List.getLast?_append_of_ne_nil _ hfront] at hend
    rw [heq, List.append_assoc] at heq'
    apply h'.unbroken
    rw [List.append_cancel_left heq']
    exact newline_mem_dropLast hend hback
  · have hr' := hcode r hr
    rcases h'.clear r hr with hc | hc <;> omega

theorem IsLine.eq_of_shared (hcode : ∀ r ∈ code, r.start < r.stop)
    (h : IsLine text window code before line) (h' : IsLine text window code before' line')
    (hlt : byteCount before < byteCount (before' ++ line'))
    (hlt' : byteCount before' < byteCount (before ++ line)) : before = before' ∧ line = line' := by
  have hstart : byteCount before = byteCount before' := by
    by_cases hne : byteCount before < byteCount before'
    · have := h.not_start_inside hcode h' hne
      omega
    · by_cases hne' : byteCount before' < byteCount before
      · have := h'.not_start_inside hcode h hne'
        omega
      · omega
  have hstop := h.not_stop_inside hcode h' hlt'
  have hstop' := h'.not_stop_inside hcode h hlt
  have hbefore := eq_of_byteCount_eq ((List.prefix_append before line).trans h.ofText)
    ((List.prefix_append before' line').trans h'.ofText) hstart
  have hline := eq_of_byteCount_eq h.ofText h'.ofText (Nat.le_antisymm hstop' hstop)
  subst hbefore
  exact ⟨rfl, List.append_cancel_left hline⟩

theorem isLine_of_isGap (h : IsGap text window code before line) (hn : '\n' ∉ line) :
    IsLine text window code before line where
  toOutside := h.toOutside
  last := h.last.elim .inl fun hr => .inr (.inr hr)
  unbroken := fun hmem => hn (List.dropLast_subset line hmem)

-- A gap with a newline in it is a line and another gap.
theorem IsGap.cut {front rest : List Char}
    (h : IsGap text window code before (front ++ ['\n'] ++ rest)) (hn : '\n' ∉ front) :
    IsLine text window code before (front ++ ['\n']) ∧
      IsGap text window code (before ++ (front ++ ['\n'])) rest := by
  have hlast : (front ++ ['\n']).getLast? = some '\n' := List.getLast?_concat
  have hassoc : before ++ (front ++ ['\n'] ++ rest) = before ++ (front ++ ['\n']) ++ rest := by
    rw [List.append_assoc before]
  have hof := h.ofText
  have hin := h.inside
  have hclear := h.clear
  have hend := h.last
  rw [hassoc] at hof hin hclear hend
  have hstart : byteCount before ≤ byteCount (before ++ (front ++ ['\n'])) := by
    rw [byteCount_append]
    omega
  have hle : byteCount (before ++ (front ++ ['\n'])) ≤
      byteCount (before ++ (front ++ ['\n']) ++ rest) := by
    rw [byteCount_append _ rest]
    omega
  constructor
  · refine ⟨⟨(List.prefix_append _ rest).trans hof, ⟨hin.1, by omega⟩, h.first, ?_⟩,
      .inr (.inl hlast), ?_⟩
    · intro r hr
      rcases hclear r hr with hc | hc
      · exact .inl (by omega)
      · exact .inr hc
    · rwa [List.dropLast_concat]
  · refine ⟨⟨hof, ⟨by omega, hin.2⟩, .inr (.inl ?_), ?_⟩, hend⟩
    · rw [List.getLast?_append_of_ne_nil _ (by simp), hlast]
    · intro r hr
      rcases hclear r hr with hc | hc
      · exact .inl hc
      · exact .inr (by omega)

theorem isLine_of_mem_linePieces {ls : List (List Char)} (hls : LineList ls)
    (h : IsGap text window code before ls.flatten) : ∀ piece ∈ linePieces before ls,
      piece = linePiece piece.before piece.text ∧
        IsLine text window code piece.before piece.text := by
  induction hls generalizing before with
  | nil =>
      intro piece hp
      cases hp
  | @open_ line _ hn =>
      rw [List.flatten_singleton] at h
      intro piece hp
      cases List.mem_singleton.mp hp
      rw [linePiece_before, linePiece_text]
      exact ⟨rfl, isLine_of_isGap h hn⟩
  | @ended front more hn _ ih =>
      obtain ⟨hline, hrest⟩ := h.cut hn
      intro piece hp
      rcases List.mem_cons.mp hp with rfl | hp
      · rw [linePiece_before, linePiece_text]
        exact ⟨rfl, hline⟩
      · exact ih hrest piece hp

end Lines

-- Pieces of which each starts where the one before stops.
inductive Follow : List Char → List Piece → Prop
  | nil (before : List Char) : Follow before []
  | cons {before text : List Char} {kind : PieceKind} {more : List Piece} :
      text ≠ [] → Follow (before ++ text) more → Follow before (⟨before, text, kind⟩ :: more)

theorem Follow.append {before : List Char} {ps qs : List Piece} (h : Follow before ps)
    (h' : Follow (before ++ ps.flatMap Piece.text) qs) : Follow before (ps ++ qs) := by
  induction h with
  | nil => simpa using h'
  | cons hne _ ih => exact .cons hne (ih (by simpa using h'))

theorem follow_linePiece {before line : List Char} {more : List Piece} (hne : line ≠ [])
    (h : Follow (before ++ line) more) : Follow before (linePiece before line :: more) := by
  unfold linePiece
  split <;> exact .cons hne h

theorem follow_linePieces {ls : List (List Char)} (h : LineList ls) (before : List Char) :
    Follow before (linePieces before ls) := by
  induction h generalizing before with
  | nil => exact .nil before
  | open_ hne _ => exact follow_linePiece hne (.nil _)
  | ended _ _ ih => exact follow_linePiece (by simp) (ih _)

theorem follow_pieces {before rest : List Char} {regions : List Region}
    (h : Located before rest regions) : Follow before (pieces before rest regions) := by
  induction h with
  | nil before rest => exact follow_linePieces (lineList_lines rest) before
  | @cons before gap code rest region more hne hrange _ ih =>
      rw [pieces_cons before more hrange]
      refine (follow_linePieces (lineList_lines gap) before).append ?_
      rw [flatMap_text_linePieces, flatten_lines]
      exact .cons hne ih

-- What a piece is: a code block, or a line outside all code that is a mark if it can be one.
def Piece.Fits (text : List Char) (window : ByteRange) (regions : List Region) (piece : Piece) :
    Prop :=
  (∃ region ∈ regions, piece.kind = .code region ∧ region.range = piece.range) ∨
    piece = linePiece piece.before piece.text ∧
      IsLine text window (regions.map Region.range) piece.before piece.text

theorem marker?_of_linePiece {before line : List Char} {marker : Marker}
    (h : ⟨before, line, .mark marker⟩ = linePiece before line) :
    atLineStart before = true ∧ marker? line = some marker := by
  unfold linePiece at h
  split at h
  · rename_i own hown
    cases h
    by_cases hstart : atLineStart before = true
    · rw [if_pos hstart] at hown
      exact ⟨hstart, hown⟩
    · rw [if_neg hstart] at hown
      cases hown
  · cases h

section Fits

variable {text : List Char} {window : ByteRange} {regions : List Region} {before stretch : List Char}

theorem Piece.Fits.range_eq {region : Region}
    (h : Piece.Fits text window regions ⟨before, stretch, .code region⟩) :
    region.range = Piece.range ⟨before, stretch, .code region⟩ := by
  rcases h with ⟨other, _, hkind, hrange⟩ | ⟨hline, _⟩
  · cases hkind
    exact hrange
  · unfold linePiece at hline
    split at hline <;> cases hline

theorem Piece.Fits.isLine {marker : Marker}
    (h : Piece.Fits text window regions ⟨before, stretch, .mark marker⟩) :
    IsLine text window (regions.map Region.range) before stretch ∧ atLineStart before = true ∧
      marker? stretch = some marker := by
  rcases h with ⟨_, _, hkind, _⟩ | ⟨hline, hisLine⟩
  · cases hkind
  · exact ⟨hisLine, marker?_of_linePiece hline⟩

end Fits

-- The induction is on the code blocks to come; `passed` are those before.
theorem fits_pieces {text : List Char} {window : ByteRange} {all passed regions : List Region}
    {before rest : List Char} (h : Located before rest regions) (hall : all = passed ++ regions)
    (hpassed : ∀ region ∈ passed, region.range.stop ≤ byteCount before)
    (hfirst : byteCount before = window.start ∨ before.getLast? = some '\n' ∨
      ∃ r ∈ all.map Region.range, r.stop = byteCount before)
    (hstart : window.start ≤ byteCount before) (hstop : byteCount (before ++ rest) = window.stop)
    (htext : before ++ rest <+: text) :
    ∀ piece ∈ pieces before rest regions, piece.Fits text window all := by
  induction h generalizing passed with
  | nil before rest =>
      have hgap : IsGap text window (all.map Region.range) before (lines rest).flatten := by
        rw [flatten_lines]
        refine ⟨⟨htext, ⟨hstart, Nat.le_of_eq hstop⟩, hfirst, ?_⟩, .inl hstop⟩
        intro r hr
        obtain ⟨region, hregion, rfl⟩ := List.mem_map.mp hr
        rw [hall, List.append_nil] at hregion
        exact .inr (hpassed region hregion)
      intro piece hp
      exact .inr (isLine_of_mem_linePieces (lineList_lines rest) hgap piece hp)
  | @cons before gap code rest region more hne hrange hmore ih =>
      have hregion : region ∈ all := by
        rw [hall]
        exact List.mem_append_right _ (List.mem_cons_self ..)
      have hassoc : before ++ (gap ++ (code ++ rest)) = before ++ gap ++ code ++ rest := by
        simp only [List.append_assoc]
      rw [hassoc] at hstop htext
      have hend : region.range.stop = byteCount (before ++ gap ++ code) := by
        simp only [hrange, byteCount_append]
      have hbegin : region.range.start = byteCount (before ++ gap) := by
        simp only [hrange, byteCount_append]
      have hgap : IsGap text window (all.map Region.range) before (lines gap).flatten := by
        rw [flatten_lines]
        refine ⟨⟨?_, ⟨hstart, ?_⟩, hfirst, ?_⟩, .inr ⟨_, List.mem_map_of_mem hregion, hbegin⟩⟩
        · rw [List.append_assoc] at htext
          exact (List.prefix_append _ _).trans htext
        · simp only [byteCount_append] at hstop ⊢
          omega
        · intro r hr
          obtain ⟨other, hother, rfl⟩ := List.mem_map.mp hr
          rw [hall] at hother
          rcases List.mem_append.mp hother with hother | hother
          · exact .inr (hpassed other hother)
          · rcases List.mem_cons.mp hother with rfl | hother
            · exact .inl (Nat.le_of_eq hbegin.symm)
            · have := (hmore.bounds _ (List.mem_map_of_mem hother)).1
              simp only [byteCount_append] at this ⊢
              exact .inl (by omega)
      rw [pieces_cons before more hrange]
      intro piece hp
      rcases List.mem_append.mp hp with hp | hp
      · exact .inr (isLine_of_mem_linePieces (lineList_lines gap) hgap piece hp)
      · rcases List.mem_cons.mp hp with rfl | hp
        · refine .inl ⟨region, hregion, rfl, ?_⟩
          simp only [Piece.range, hrange, byteCount_append]
        · refine @ih (passed ++ [region]) (by simp [hall]) ?_ ?_ ?_ hstop htext piece hp
          · intro other hother
            rcases List.mem_append.mp hother with hother | hother
            · have := hpassed other hother
              simp only [byteCount_append]
              omega
            · cases List.mem_singleton.mp hother
              exact Nat.le_of_eq hend
          · exact .inr (.inr ⟨_, List.mem_map_of_mem hregion, hend⟩)
          · simp only [byteCount_append]
            omega

end LiveDoc
