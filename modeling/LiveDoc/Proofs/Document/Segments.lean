import LiveDoc.Proofs.Document.Pieces
import LiveDoc.Proofs.Document.Regions

namespace LiveDoc

open Text

-- Segments from pieces: lines that are kept join, and nothing else changes.
inductive Gathers : List Piece → List Segment → Prop
  | nil : Gathers [] []
  | kept {ps : List Piece} {ss : List Segment} (before text : List Char) :
      Gathers ps ss →
      Gathers (⟨before, text, .kept⟩ :: ps) (.prose (byteCount before) text :: ss)
  | join {ps : List Piece} {ss : List Segment} {more : List Char} (before text : List Char) :
      Gathers ps (.prose (byteCount (before ++ text)) more :: ss) →
      Gathers (⟨before, text, .kept⟩ :: ps) (.prose (byteCount before) (text ++ more) :: ss)
  | mark {ps : List Piece} {ss : List Segment} (before line : List Char) (marker : Marker) :
      Gathers ps ss →
      Gathers (⟨before, line, .mark marker⟩ :: ps) (.mark (byteCount before) line marker :: ss)
  | fenced {ps : List Piece} {ss : List Segment} (before text : List Char) (range : ByteRange)
      (info content : List Char) :
      Gathers ps ss →
      Gathers (⟨before, text, .code (.fenced range info content)⟩ :: ps)
        (.fenced range info content :: ss)
  | indented {ps : List Piece} {ss : List Segment} (before text : List Char) (range : ByteRange) :
      Gathers ps ss →
      Gathers (⟨before, text, .code (.indented range)⟩ :: ps)
        (.prose (byteCount before) text :: ss)

theorem Gathers.append {ps qs : List Piece} {ss ts : List Segment} (h : Gathers ps ss)
    (h' : Gathers qs ts) : Gathers (ps ++ qs) (ss ++ ts) := by
  induction h with
  | nil => exact h'
  | kept before text _ ih => exact .kept before text ih
  | join before text _ ih => exact .join before text ih
  | mark before line marker _ ih => exact .mark before line marker ih
  | fenced before text range info content _ ih => exact .fenced before text range info content ih
  | indented before text range _ ih => exact .indented before text range ih

theorem splitProse_head {start next : Nat} {whole : Bool} {ls : List (List Char)}
    {text : List Char} {tail : List Segment}
    (h : splitProse start whole ls = .prose next text :: tail) : next = start := by
  cases ls with
  | nil => cases h
  | cons line rest =>
      simp only [splitProse] at h
      split at h
      · cases h
      · split at h <;> (cases h; rfl)

theorem gathers_line (before line : List Char) {rest : List (List Char)}
    (h : Gathers (linePieces (before ++ line) rest)
      (splitProse (byteCount (before ++ line)) true rest)) :
    Gathers (linePieces before (line :: rest))
      (splitProse (byteCount before) (atLineStart before) (line :: rest)) := by
  rw [byteCount_append] at h
  simp only [linePieces, linePiece, splitProse]
  cases hm : (if atLineStart before then marker? line else none) with
  | some marker => exact .mark before line marker h
  | none =>
      dsimp only
      split
      · rename_i next text tail hmore
        rw [hmore, splitProse_head hmore, ← byteCount_append] at h
        exact .join before line h
      · exact .kept before line h

-- The lines of a gap: after the first, each starts behind a newline.
theorem gathers_linePieces {ls : List (List Char)} (hls : LineList ls) (before : List Char) :
    Gathers (linePieces before ls) (splitProse (byteCount before) (atLineStart before) ls) := by
  induction hls generalizing before with
  | nil => exact .nil
  | open_ _ _ => exact gathers_line before _ .nil
  | @ended front more _ _ ih =>
      have hstart : atLineStart (before ++ (front ++ ['\n'])) = true := by
        rw [← List.append_assoc, atLineStart, List.getLast?_concat]
        rfl
      have hrest := ih (before ++ (front ++ ['\n']))
      rw [hstart] at hrest
      exact gathers_line before _ hrest

theorem startsLine_append (before rest : List Char) :
    startsLine (before ++ rest) (byteCount before) = atLineStart before := by
  rw [startsLine, takeBytes_byteCount, atLineStart]
  cases hl : before.getLast? with
  | none =>
      rw [List.getLast?_eq_none_iff] at hl
      rw [hl]
      rfl
  | some c =>
      have hne : before ≠ [] := by
        rintro rfl
        cases hl
      have hpos := byteCount_pos hne
      have hzero : (byteCount before == 0) = false := by
        simpa using Nat.ne_of_gt hpos
      simp [hzero]

theorem gathers_proseBetween {text before gap after : List Char}
    (htext : text = before ++ gap ++ after) :
    Gathers (linePieces before (lines gap))
      (proseBetween text (byteCount before) (byteCount (before ++ gap))) := by
  have hgap := gathers_linePieces (lineList_lines gap) before
  rw [proseBetween, byteCount_append, htext, slice_append, List.append_assoc, startsLine_append]
  exact hgap

theorem gathers_codeSegments {text before code after : List Char} {region : Region}
    (htext : text = before ++ code ++ after) (hne : code ≠ [])
    (hrange : region.range = ⟨byteCount before, byteCount (before ++ code)⟩) :
    Gathers [⟨before, code, .code region⟩] (codeSegments text region) := by
  cases region with
  | fenced range info content => exact .fenced before code range info content .nil
  | indented range =>
      have hpos := byteCount_pos hne
      have hslice := slice_append before code after
      change range = _ at hrange
      rw [byteCount_append] at hrange
      have hlt : byteCount before < byteCount before + byteCount code := by omega
      simp only [codeSegments, hrange, hlt, if_true, htext, hslice]
      exact .indented before code _ .nil

-- The segments of a text are its pieces, with kept lines joined. The induction is on the code
-- blocks to come.
theorem gathers_segmentsFrom {text before rest after : List Char} {regions : List Region}
    (h : Located before rest regions) (htext : text = before ++ rest ++ after) :
    Gathers (pieces before rest regions)
      (segmentsFrom text (byteCount (before ++ rest)) (byteCount before) regions) := by
  induction h with
  | nil before rest => exact gathers_proseBetween htext
  | @cons before gap code rest region more hne hrange _ ih =>
      have hassoc : before ++ (gap ++ (code ++ rest)) = before ++ gap ++ code ++ rest := by
        simp only [List.append_assoc]
      have hgap : text = before ++ gap ++ (code ++ rest ++ after) := by
        simp only [htext, List.append_assoc]
      have hcode : text = before ++ gap ++ code ++ (rest ++ after) := by
        simp only [htext, List.append_assoc]
      rw [hassoc] at htext
      rw [← byteCount_append, ← byteCount_append] at hrange
      have hstart := gathers_proseBetween hgap
      have hmiddle := gathers_codeSegments hcode hne hrange
      have hrest := ih htext
      have hall := (hstart.append hmiddle).append hrest
      rw [pieces_cons before more (by simpa only [byteCount_append] using hrange), segmentsFrom,
        hrange, hassoc]
      simpa only [List.append_assoc, List.singleton_append] using hall

theorem gathers_segments {text before inside after : List Char} {window : ByteRange}
    (h : Located before inside (regions text window)) (htext : text = before ++ inside ++ after)
    (hwindow : window = ⟨byteCount before, byteCount (before ++ inside)⟩) :
    Gathers (pieces before inside (regions text window)) (segments text window) := by
  have hs := gathers_segmentsFrom h htext
  have hstart : window.start = byteCount before := by rw [hwindow]
  have hstop : window.stop = byteCount (before ++ inside) := by rw [hwindow]
  rw [segments, hstart, hstop]
  exact hs

-- What a segment says about the stretch of text that it stands for.
def Segment.Takes (before stretch : List Char) : Segment → Prop
  | .prose start text => start = byteCount before ∧ text = stretch
  | .mark start line marker => start = byteCount before ∧ line = stretch ∧ marker? line = some marker
  | .fenced range _ _ => range = ⟨byteCount before, byteCount (before ++ stretch)⟩

-- Segments that stand for a text one after the other, from its start to its end.
inductive Runs : List Char → List Char → List Segment → Prop
  | nil (before : List Char) : Runs before [] []
  | cons {before stretch rest : List Char} {segment : Segment} {more : List Segment} :
      stretch ≠ [] → segment.Takes before stretch → Runs (before ++ stretch) rest more →
      Runs before (stretch ++ rest) (segment :: more)

theorem runs_of_gathers {text : List Char} {window : ByteRange} {all : List Region}
    {before : List Char} {ps : List Piece} {ss : List Segment} (h : Gathers ps ss)
    (hfollow : Follow before ps) (hfits : ∀ piece ∈ ps, piece.Fits text window all) :
    Runs before (ps.flatMap Piece.text) ss := by
  induction h generalizing before with
  | nil => exact .nil before
  | kept _ piece _ ih =>
      cases hfollow with
      | cons hne hmore =>
          exact .cons hne ⟨rfl, rfl⟩ (ih hmore fun p hp => hfits p (List.mem_cons_of_mem _ hp))
  | @join ps ss more _ piece _ ih =>
      cases hfollow with
      | cons hne hmore =>
          have hruns := ih hmore fun p hp => hfits p (List.mem_cons_of_mem _ hp)
          generalize htext : ps.flatMap Piece.text = rest at hruns
          cases hruns with
          | @cons _ stretch rest _ _ hne' htakes hrest =>
              rw [List.flatMap_cons, htext, htakes.2, ← List.append_assoc]
              rw [List.append_assoc] at hrest
              exact .cons (by simp [hne]) ⟨rfl, rfl⟩ hrest
  | mark _ line marker _ ih =>
      cases hfollow with
      | cons hne hmore =>
          have hrest := ih hmore fun p hp => hfits p (List.mem_cons_of_mem _ hp)
          obtain ⟨-, -, hmarker⟩ := (hfits _ (List.mem_cons_self ..)).isLine
          exact .cons hne ⟨rfl, rfl, hmarker⟩ hrest
  | fenced _ code range info content _ ih =>
      cases hfollow with
      | cons hne hmore =>
          have hrest := ih hmore fun p hp => hfits p (List.mem_cons_of_mem _ hp)
          refine .cons hne ?_ hrest
          rw [Segment.Takes, byteCount_append]
          exact (hfits _ (List.mem_cons_self ..)).range_eq
  | indented _ code range _ ih =>
      cases hfollow with
      | cons hne hmore =>
          exact .cons hne ⟨rfl, rfl⟩ (ih hmore fun p hp => hfits p (List.mem_cons_of_mem _ hp))

-- A window of a text that cuts no character.
def ByteRange.Windows (window : ByteRange) (text : List Char) : Prop :=
  ∃ before inside after, text = before ++ inside ++ after ∧
    window = ⟨byteCount before, byteCount (before ++ inside)⟩

def codeRegions (text : List Char) (window : ByteRange) : List ByteRange :=
  (regions text window).map Region.range

-- What is known of the pieces of a window.
structure Tiled (text : List Char) (window : ByteRange) (before inside : List Char)
    (ps : List Piece) : Prop where
  gathers : Gathers ps (segments text window)
  follow : Follow before ps
  flatMap_text : ps.flatMap Piece.text = inside
  fits : ∀ piece ∈ ps, piece.Fits text window (regions text window)
  code : ∀ r ∈ codeRegions text window, r.start < r.stop

theorem tiled_pieces {text before inside after : List Char} {window : ByteRange}
    (htext : text = before ++ inside ++ after)
    (hwindow : window = ⟨byteCount before, byteCount (before ++ inside)⟩)
    (hown : OwnLines inside) :
    Tiled text window before inside (pieces before inside (regions text window)) := by
  have hwhole : window = ⟨byteCount before, byteCount before + byteCount inside⟩ := by
    rw [hwindow, byteCount_append]
  have hlaid := laid_regions htext hwhole hown
  have hstart : window.start = byteCount before := by rw [hwindow]
  have hstop : window.stop = byteCount (before ++ inside) := by rw [hwindow]
  rw [hstart] at hlaid
  have hloc := located_of_laid hlaid
  refine ⟨gathers_segments hloc htext hwindow, follow_pieces hloc, flatMap_text_pieces hloc, ?_,
    fun r hr => (hloc.bounds r hr).2⟩
  refine fits_pieces hloc (List.nil_append _).symm ?_ (.inl hstart.symm) (Nat.le_of_eq hstart)
    hstop.symm ⟨after, htext.symm⟩
  intro region hregion
  cases hregion

end LiveDoc
