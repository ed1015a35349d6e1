import LiveDoc.Proofs.Document.Marks
import LiveDoc.Proofs.Document.Segments
import LiveDoc.Proofs.Document.Visits
import Mathlib

namespace LiveDoc

open Text

def ByteRange.Has (range : ByteRange) (position : Nat) : Prop :=
  range.start ≤ position ∧ position < range.stop

def Visit.span? : Visit → Option Span
  | .prose piece => some piece.span
  | .directive request => some request.span
  | .code block => some block.span
  | .enter _ _ span => some span
  | .leave => none

-- The spans that a walk over a tree meets, a condition's own before those of its children.
def spans (nodes : List Node) : List Span := (visits nodes).filterMap Visit.span?

def Visit.content? : Visit → Option Span
  | .prose piece => some piece.span
  | .code block => some block.span
  | _ => none

def Visit.marked? : Visit → Option Span
  | .directive request => some request.span
  | .enter _ _ span => some span
  | _ => none

-- A line of the text, outside all code, that marks something.
def IsMarkerLine (text : List Char) (window : ByteRange) (before line : List Char) : Prop :=
  IsLine text window (codeRegions text window) before line ∧ atLineStart before ∧ IsMarked line

-- The tree keeps all of the window: nothing twice, nothing moved, and only marks are left out.
structure Lossless (text : List Char) (window : ByteRange) (nodes : List Node) : Prop where
  ordered : (spans nodes).Pairwise fun a b => a.range.stop ≤ b.range.start
  inside : ∀ span ∈ spans nodes, window.start ≤ span.range.start ∧
    span.range.start < span.range.stop ∧ span.range.stop ≤ window.stop
  proseText : ∀ prose, .prose prose ∈ visits nodes →
    prose.text.toList = slice text prose.span.range.start prose.span.range.stop
  codeIsLiteral : ∀ span ∈ (visits nodes).filterMap Visit.marked?,
    ∀ region ∈ codeRegions text window,
      span.range.stop ≤ region.start ∨ region.stop ≤ span.range.start
  guards : ∀ guard source span, .enter guard source span ∈ visits nodes →
    ∃ lead gap : List Char, slice text span.range.start span.range.stop =
        lead ++ Keyword.startIf.word ++ gap ++ source.toList ∧
      (∀ c ∈ lead, isBlank c) ∧ (∀ c ∈ gap, isBlank c) ∧ gap ≠ [] ∧
      Calc.parseGuard source.toList
        (span.range.start + byteCount (lead ++ Keyword.startIf.word ++ gap)) = .ok guard
  uncovered : ∀ position, window.Has position →
    ((∀ span ∈ (visits nodes).filterMap Visit.content?, ¬ span.range.Has position) ↔
      ∃ before line, IsMarkerLine text window before line ∧
        byteCount before ≤ position ∧ position < byteCount (before ++ line))

-- A mark shows its keyword, so that its span is not empty; it ends on its line.
theorem markSpan_bounds {line : List Char} {marker : Marker} (text : List Char) (source start : Nat)
    (h : marker? line = some marker) :
    (markSpan text source start line).range.start = start ∧
      start < (markSpan text source start line).range.stop ∧
      (markSpan text source start line).range.stop ≤ start + byteCount line := by
  obtain ⟨lead, gap, trailing, hon⟩ := marker?_on h
  obtain ⟨dropped, hsplit, -⟩ := exists_trimEnd isBlank line
  have hne : trimEnd isBlank line ≠ [] := by
    intro hnil
    have hall := List.rdropWhile_eq_nil_iff.mp hnil
    have hmem : '!' ∈ line := by
      rw [hon.line_eq]
      simp [marker.keyword.mem_word]
    have := hall _ hmem
    rw [isBlank_bang] at this
    cases this
  have hpos := byteCount_pos hne
  have hcount := congrArg byteCount hsplit
  rw [byteCount_append] at hcount
  refine ⟨rfl, ?_, ?_⟩
  · change start < start + byteCount (trimEnd isBlank line)
    omega
  · change start + byteCount (trimEnd isBlank line) ≤ _
    omega

section Walk

variable {text : List Char} {source : Nat} {before stretch rest : List Char} {segment : Segment}
  {visit : Visit} {ss : List Segment} {vs : List Visit}

theorem codeBlock_span {range : ByteRange} {info content : List Char} {block : CodeBlock}
    (h : codeBlock text source range info content = .ok block) : block.span.range = range := by
  rw [span_of_codeBlock h]
  rfl

-- What a visit covers lies in the stretch of its segment.
theorem Shows.span_bounds (h : Shows text source segment visit)
    (ht : segment.Takes before stretch) (hne : stretch ≠ []) : ∀ span ∈ visit.span?,
      byteCount before ≤ span.range.start ∧ span.range.start < span.range.stop ∧
        span.range.stop ≤ byteCount (before ++ stretch) := by
  have hpos := byteCount_pos hne
  rw [byteCount_append]
  intro span hspan
  cases h with
  | prose start piece =>
      obtain ⟨rfl, rfl⟩ := ht
      cases hspan
      simp only [Span.of]
      omega
  | fenced hblock =>
      cases hspan
      rw [codeBlock_span hblock, ht, byteCount_append]
      dsimp only
      omega
  | insert path part hkeyword =>
      obtain ⟨rfl, rfl, hmarker⟩ := ht
      cases hspan
      obtain ⟨hstart, hlt, hle⟩ := markSpan_bounds text source (byteCount before) hmarker
      exact ⟨Nat.le_of_eq hstart.symm, by rwa [hstart], hle⟩
  | startIf hkeyword _ _ =>
      obtain ⟨rfl, rfl, hmarker⟩ := ht
      cases hspan
      obtain ⟨hstart, hlt, hle⟩ := markSpan_bounds text source (byteCount before) hmarker
      exact ⟨Nat.le_of_eq hstart.symm, by rwa [hstart], hle⟩
  | endIf => cases hspan

-- One step and the run: the spans of a walk are in order.
theorem spans_of_runs (h : Runs before rest ss) (hs : List.Forall₂ (Shows text source) ss vs) :
    (∀ span ∈ vs.filterMap Visit.span?, byteCount before ≤ span.range.start ∧
      span.range.start < span.range.stop ∧ span.range.stop ≤ byteCount (before ++ rest)) ∧
    (vs.filterMap Visit.span?).Pairwise fun a b => a.range.stop ≤ b.range.start := by
  induction h generalizing vs with
  | nil =>
      cases hs
      exact ⟨fun _ h => (List.not_mem_nil h).elim, .nil⟩
  | @cons before stretch rest segment more hne ht _ ih =>
      cases hs with
      | @cons _ visit _ others hvisit hmore =>
          obtain ⟨hbounds, hpair⟩ := ih hmore
          have hfirst := hvisit.span_bounds ht hne
          simp only [byteCount_append] at hbounds hfirst ⊢
          cases hspan : visit.span? with
          | none =>
              rw [List.filterMap_cons_none hspan]
              refine ⟨fun span hmem => ?_, hpair⟩
              have := hbounds span hmem
              omega
          | some own =>
              have hown := hfirst own hspan
              rw [List.filterMap_cons_some hspan]
              refine ⟨fun span hmem => ?_, ?_⟩
              · rcases List.mem_cons.mp hmem with rfl | hmem
                · omega
                · have := hbounds span hmem
                  omega
              · refine .cons (fun span hmem => ?_) hpair
                have := hbounds span hmem
                omega

-- Each visit has its segment, and that its stretch of the text.
theorem exists_of_mem_visits {after : List Char} (h : Runs before rest ss)
    (hs : List.Forall₂ (Shows text source) ss vs) (htext : text = before ++ rest ++ after)
    (hvisit : visit ∈ vs) :
    ∃ front stretch back segment, text = front ++ stretch ++ back ∧ segment ∈ ss ∧
      segment.Takes front stretch ∧ Shows text source segment visit := by
  induction h generalizing vs with
  | nil =>
      cases hs
      cases hvisit
  | @cons before stretch rest segment more _ ht _ ih =>
      cases hs with
      | cons hfirst hmore =>
          have hrest : text = before ++ stretch ++ rest ++ after := by
            rw [htext]
            simp only [List.append_assoc]
          rcases List.mem_cons.mp hvisit with rfl | hvisit
          · refine ⟨before, stretch, rest ++ after, segment, ?_, List.mem_cons_self .., ht, hfirst⟩
            rw [hrest, List.append_assoc]
          · obtain ⟨front, stretch, back, other, hsplit, hother, hfound⟩ := ih hmore hrest hvisit
            exact ⟨front, stretch, back, other, hsplit, List.mem_cons_of_mem _ hother, hfound⟩

theorem Shows.exists_mark (h : Shows text source segment visit) {span : Span}
    (hspan : visit.marked? = some span) : ∃ start line marker,
      segment = .mark start line marker ∧ span = markSpan text source start line := by
  cases h with
  | prose start piece => cases hspan
  | fenced hblock => cases hspan
  | insert path part hkeyword =>
      cases hspan
      exact ⟨_, _, _, rfl, rfl⟩
  | startIf hkeyword hargument hguard =>
      cases hspan
      exact ⟨_, _, _, rfl, rfl⟩
  | endIf => cases hspan

theorem slice_of_shows_prose {after : List Char} {prose : Prose}
    (h : Shows text source segment (.prose prose)) (ht : segment.Takes before stretch)
    (htext : text = before ++ stretch ++ after) :
    prose.text.toList = slice text prose.span.range.start prose.span.range.stop := by
  cases h with
  | prose start piece =>
      obtain ⟨rfl, rfl⟩ := ht
      rw [String.toList_ofList, htext]
      exact (slice_append before piece after).symm

theorem guard_of_shows_enter {after : List Char} {guard : Calc.Guard} {words : String}
    {span : Span} (h : Shows text source segment (.enter guard words span))
    (ht : segment.Takes before stretch) (htext : text = before ++ stretch ++ after) :
    ∃ lead gap : List Char, slice text span.range.start span.range.stop =
        lead ++ Keyword.startIf.word ++ gap ++ words.toList ∧
      (∀ c ∈ lead, isBlank c) ∧ (∀ c ∈ gap, isBlank c) ∧ gap ≠ [] ∧
      Calc.parseGuard words.toList
        (span.range.start + byteCount (lead ++ Keyword.startIf.word ++ gap)) = .ok guard := by
  cases h with
  | @startIf start line marker _ hkeyword hargument hguard =>
      obtain ⟨rfl, rfl, hmarker⟩ := ht
      obtain ⟨lead, gap, trailing, hon⟩ := marker?_on hmarker
      have hline := hon.line_eq
      have hfront := hon.front_eq
      rw [hkeyword] at hline hfront
      have htrim : trimEnd isBlank line =
          lead ++ Keyword.startIf.word ++ gap ++ marker.argument := by
        rw [hline]
        refine trimEnd_append (fun c hc => ?_) hon.trailing_blank
        rw [List.getLast?_append_of_ne_nil _ hargument] at hc
        exact hon.tight c hc
      refine ⟨lead, gap, ?_, hon.lead_blank, hon.gap_blank, hon.apart hargument, ?_⟩
      · rw [String.toList_ofList, ← htrim]
        have hsplit : text = before ++ trimEnd isBlank line ++ (trailing ++ after) := by
          rw [htext, htrim]
          conv_lhs => rw [hline]
          simp only [List.append_assoc]
        conv_lhs => rw [hsplit]
        exact slice_append before _ _
      · rw [String.toList_ofList, ← hfront]
        exact hguard

end Walk

section Coverage

variable {text : List Char} {window : ByteRange} {source position : Nat} {all : List Region}
  {ps : List Piece} {ss : List Segment} {vs : List Visit}

theorem Gathers.mem_mark (h : Gathers ps ss) {start : Nat} {line : List Char} {marker : Marker}
    (hmem : .mark start line marker ∈ ss) :
    ∃ before, start = byteCount before ∧ ⟨before, line, .mark marker⟩ ∈ ps := by
  induction h with
  | nil => cases hmem
  | mark before own other _ ih =>
      rcases List.mem_cons.mp hmem with heq | hmem
      · cases heq
        exact ⟨before, rfl, List.mem_cons_self ..⟩
      · obtain ⟨before, hstart, hpiece⟩ := ih hmem
        exact ⟨before, hstart, List.mem_cons_of_mem _ hpiece⟩
  | join before piece _ ih =>
      rcases List.mem_cons.mp hmem with heq | hmem
      · cases heq
      · obtain ⟨before, hstart, hpiece⟩ := ih (List.mem_cons_of_mem _ hmem)
        exact ⟨before, hstart, List.mem_cons_of_mem _ hpiece⟩
  | kept _ _ _ ih | fenced _ _ _ _ _ _ ih | indented _ _ _ _ ih =>
      rcases List.mem_cons.mp hmem with heq | hmem
      · cases heq
      · obtain ⟨before, hstart, hpiece⟩ := ih hmem
        exact ⟨before, hstart, List.mem_cons_of_mem _ hpiece⟩

-- What prose and code cover is what is read as anything but a mark.
theorem covered_iff (h : Gathers ps ss) (hfits : ∀ piece ∈ ps, piece.Fits text window all)
    (hs : List.Forall₂ (Shows text source) ss vs) :
    (∃ span ∈ vs.filterMap Visit.content?, span.range.Has position) ↔
      ∃ piece ∈ ps, (∀ marker, piece.kind ≠ .mark marker) ∧ piece.range.Has position := by
  have htail : ∀ {piece : Piece} {ps : List Piece},
      (∀ p ∈ piece :: ps, p.Fits text window all) → ∀ p ∈ ps, p.Fits text window all :=
    fun h p hp => h p (List.mem_cons_of_mem _ hp)
  induction h generalizing vs with
  | nil =>
      cases hs
      simp
  | kept before piece _ ih =>
      cases hs with
      | cons hfirst hmore =>
          cases hfirst
          simp only [List.filterMap_cons, Visit.content?, List.mem_cons, exists_eq_or_imp,
            ih (htail hfits) hmore, Span.of, Piece.range]
          simp
  | join before piece _ ih =>
      cases hs with
      | cons hfirst hmore =>
          cases hfirst
          have hnext := ih (htail hfits) (.cons (.prose _ _) hmore)
          simp only [List.filterMap_cons, Visit.content?, List.mem_cons, exists_eq_or_imp,
            Span.of] at hnext ⊢
          refine Iff.trans ?_ (or_congr Iff.rfl hnext)
          rw [← or_assoc]
          refine or_congr ?_ Iff.rfl
          simp only [ByteRange.Has, Piece.range, byteCount_append]
          constructor
          · intro hrange
            by_cases hlt : position < byteCount before + byteCount piece
            · exact .inl ⟨by simp, hrange.1, hlt⟩
            · exact .inr (by omega)
          · rintro (⟨-, hrange⟩ | hrange) <;> omega
  | mark before line marker _ ih =>
      cases hs with
      | cons hfirst hmore =>
          have hnone : ∀ visit, Shows text source (.mark (byteCount before) line marker) visit →
              visit.content? = none := by
            intro visit hshows
            cases hshows <;> rfl
          rw [List.filterMap_cons_none (hnone _ hfirst)]
          refine (ih (htail hfits) hmore).trans ?_
          simp
  | fenced before code range info content _ ih =>
      cases hs with
      | cons hfirst hmore =>
          cases hfirst with
          | fenced hblock =>
              have hrange : range = Piece.range ⟨before, code, .code (.fenced range info content)⟩ :=
                (hfits _ (List.mem_cons_self ..)).range_eq
              simp only [List.filterMap_cons, Visit.content?, List.mem_cons, exists_eq_or_imp,
                ih (htail hfits) hmore, codeBlock_span hblock]
              rw [← hrange]
              simp
  | indented before code range _ ih =>
      cases hs with
      | cons hfirst hmore =>
          cases hfirst
          simp only [List.filterMap_cons, Visit.content?, List.mem_cons, exists_eq_or_imp,
            ih (htail hfits) hmore, Span.of, Piece.range]
          simp

end Coverage

theorem exists_piece_has {before : List Char} {ps : List Piece} (h : Follow before ps)
    {position : Nat} (hstart : byteCount before ≤ position)
    (hstop : position < byteCount (before ++ ps.flatMap Piece.text)) :
    ∃ piece ∈ ps, piece.range.Has position := by
  induction h with
  | nil =>
      rw [List.flatMap_nil, List.append_nil] at hstop
      omega
  | @cons before text kind more _ _ ih =>
      by_cases hlt : position < byteCount before + byteCount text
      · exact ⟨_, List.mem_cons_self .., hstart, hlt⟩
      · rw [List.flatMap_cons, ← List.append_assoc] at hstop
        obtain ⟨piece, hpiece, hhas⟩ := ih (by rw [byteCount_append]; omega) hstop
        exact ⟨piece, List.mem_cons_of_mem _ hpiece, hhas⟩

section Window

variable {text before inside : List Char} {window : ByteRange} {ps : List Piece} {position : Nat}

theorem Tiled.isMarkerLine (h : Tiled text window before inside ps) {piece : Piece}
    {marker : Marker} (hp : piece ∈ ps) (hkind : piece.kind = .mark marker) :
    IsMarkerLine text window piece.before piece.text := by
  obtain ⟨front, line, kind⟩ := piece
  change kind = .mark marker at hkind
  subst hkind
  obtain ⟨hisLine, hstart, hmarker⟩ := (h.fits _ hp).isLine
  exact ⟨hisLine, hstart, isSome_marker?_iff.mp (by rw [hmarker]; rfl)⟩

-- The span of a mark stays clear of code, as its line does.
theorem Tiled.markSpan_clear (h : Tiled text window before inside ps) {source start : Nat}
    {line : List Char} {marker : Marker}
    (hmem : .mark start line marker ∈ segments text window) :
    ∀ region ∈ codeRegions text window,
      (markSpan text source start line).range.stop ≤ region.start ∨
        region.stop ≤ (markSpan text source start line).range.start := by
  intro region hregion
  obtain ⟨front, rfl, hpiece⟩ := h.gathers.mem_mark hmem
  obtain ⟨hisLine, -, hmarker⟩ := (h.fits _ hpiece).isLine
  obtain ⟨hstart, hlt, hle⟩ := markSpan_bounds text source (byteCount front) hmarker
  have hclear := hisLine.clear region hregion
  rw [byteCount_append] at hclear
  rcases hclear with hc | hc
  · exact .inl (by omega)
  · exact .inr (by omega)

-- A piece that shares a byte with a marker line is that line.
theorem Tiled.mark_of_has (h : Tiled text window before inside ps) {piece : Piece}
    {front line : List Char} (hp : piece ∈ ps) (hmark : IsMarkerLine text window front line)
    (hstart : byteCount front ≤ position) (hstop : position < byteCount (front ++ line))
    (hhas : piece.range.Has position) : ∃ marker, piece.kind = .mark marker := by
  obtain ⟨hisLine, hfresh, hmarked⟩ := hmark
  obtain ⟨hlo, hhi⟩ := hhas
  rcases h.fits piece hp with ⟨region, hregion, -, hrange⟩ | ⟨hpiece, hpieceLine⟩
  · rw [← hrange] at hlo hhi
    rcases hisLine.clear _ (List.mem_map_of_mem hregion) with hc | hc <;> omega
  · simp only [Piece.range] at hlo hhi
    rw [← byteCount_append] at hhi
    obtain ⟨hbefore, hline⟩ := hpieceLine.eq_of_shared h.code hisLine (by omega) (by omega)
    obtain ⟨marker, hmarker⟩ := Option.isSome_iff_exists.mp (isSome_marker?_iff.mpr hmarked)
    refine ⟨marker, ?_⟩
    rw [hpiece, hbefore, hline, linePiece, if_pos hfresh, hmarker]

end Window

-- A window that cuts no character and in which no two code blocks share a line is read without
-- loss.
theorem lossless_of_parseWindow {text : List Char} {source : Nat} {window : ByteRange}
    {document : Document} (hwindow : window.Windows text)
    (hown : OwnLines (slice text window.start window.stop))
    (hparse : parseWindow text source window = .ok document) :
    Lossless text window document.nodes := by
  obtain ⟨before, inside, after, htext, hwin⟩ := hwindow
  have hinside : slice text window.start window.stop = inside := by
    rw [htext, hwin, byteCount_append]
    exact slice_append before inside after
  rw [hinside] at hown
  have htiled := tiled_pieces htext hwin hown
  have hshows := shows_parseWindow hparse
  have hruns := runs_of_gathers htiled.gathers htiled.follow htiled.fits
  rw [htiled.flatMap_text] at hruns
  have hstart : window.start = byteCount before := by rw [hwin]
  have hstop : window.stop = byteCount (before ++ inside) := by rw [hwin]
  obtain ⟨hbounds, hordered⟩ := spans_of_runs hruns hshows
  have hcovered := fun position => @covered_iff text window source position (regions text window)
    _ _ _ htiled.gathers htiled.fits hshows
  refine ⟨hordered, ?_, ?_, ?_, ?_, ?_⟩
  · rw [hstart, hstop]
    exact hbounds
  · intro prose hvisit
    obtain ⟨front, stretch, back, segment, hsplit, -, ht, hs⟩ :=
      exists_of_mem_visits hruns hshows htext hvisit
    exact slice_of_shows_prose hs ht hsplit
  · intro span hspan region hregion
    obtain ⟨visit, hvisit, hmarked⟩ := List.mem_filterMap.mp hspan
    obtain ⟨_, _, _, segment, -, hmem, -, hs⟩ :=
      exists_of_mem_visits hruns hshows htext hvisit
    obtain ⟨start, line, marker, rfl, rfl⟩ := hs.exists_mark hmarked
    exact htiled.markSpan_clear hmem region hregion
  · intro guard words span hvisit
    obtain ⟨front, stretch, back, segment, hsplit, -, ht, hs⟩ :=
      exists_of_mem_visits hruns hshows htext hvisit
    exact guard_of_shows_enter hs ht hsplit
  · intro position hposition
    constructor
    · intro hnone
      obtain ⟨hlo, hhi⟩ := hposition
      rw [hstart] at hlo
      rw [hstop, ← htiled.flatMap_text] at hhi
      obtain ⟨piece, hp, hhas⟩ := exists_piece_has htiled.follow hlo hhi
      have hmark : ∃ marker, piece.kind = .mark marker := by
        by_contra hno
        obtain ⟨span, hspan, hcover⟩ := (hcovered position).mpr
          ⟨piece, hp, fun marker hk => hno ⟨marker, hk⟩, hhas⟩
        exact hnone span hspan hcover
      obtain ⟨marker, hkind⟩ := hmark
      refine ⟨piece.before, piece.text, htiled.isMarkerLine hp hkind, hhas.1, ?_⟩
      rw [byteCount_append]
      exact hhas.2
    · rintro ⟨front, line, hmark, hlo, hhi⟩ span hspan hcover
      obtain ⟨piece, hp, hkind, hhas⟩ := (hcovered position).mp ⟨span, hspan, hcover⟩
      obtain ⟨marker, hmarker⟩ := htiled.mark_of_has hp hmark hlo hhi hhas
      exact hkind marker hmarker

-- Marks in quoted and in indented code, and around both.
def codeWithMarks : List Char :=
  "a\n!if x\n> ```\n> !endif\n> ```\n\n    !include c.md\nb\n!endif \nd".toList

theorem blocks_codeWithMarks : Markdown.blocks (slice codeWithMarks 2 58) =
    ([.fenced ⟨8, 26⟩ [] "!endif\n".toList, .indented ⟨32, 46⟩], []) := by
  cbv

theorem segments_codeWithMarks : segments codeWithMarks ⟨2, 58⟩ =
    [.mark 2 "!if x\n".toList ⟨.startIf, "!if ".toList, ['x']⟩, .prose 8 "> ".toList,
      .fenced ⟨10, 29⟩ [] "!endif\n".toList, .prose 29 "\n    ".toList,
      .prose 34 "!include c.md\n".toList, .prose 48 "b\n".toList,
      .mark 50 "!endif \n".toList ⟨.endIf, "!endif ".toList, []⟩] := by
  rw [segments, regions, blocks_codeWithMarks]
  decide +kernel

theorem parseWindow_codeWithMarks : parseWindow codeWithMarks 0 ⟨2, 58⟩ = .ok ⟨0,
    [.conditional ⟨.var "x" ⟨6, 7⟩, rfl⟩ "x"
      [.prose ⟨"> ", ⟨0, ⟨8, 10⟩, 3⟩⟩,
        .code ⟨none, "", [], .empty, 0, "```", "!endif\n", "> ", ⟨0, ⟨10, 29⟩, 3⟩⟩,
        .prose ⟨"\n    ", ⟨0, ⟨29, 34⟩, 6⟩⟩,
        .prose ⟨"!include c.md\n", ⟨0, ⟨34, 48⟩, 7⟩⟩,
        .prose ⟨"b\n", ⟨0, ⟨48, 50⟩, 8⟩⟩]
      ⟨0, ⟨2, 7⟩, 2⟩]⟩ := by
  rw [parseWindow, segments_codeWithMarks]
  cbv

theorem lossless_codeWithMarks :
    ByteRange.Windows ⟨2, 58⟩ codeWithMarks ∧ OwnLines (slice codeWithMarks 2 58) ∧
      ∃ document, parseWindow codeWithMarks 0 ⟨2, 58⟩ = .ok document ∧
        Lossless codeWithMarks ⟨2, 58⟩ document.nodes := by
  have hwindow : ByteRange.Windows ⟨2, 58⟩ codeWithMarks :=
    ⟨takeBytes 2 codeWithMarks, slice codeWithMarks 2 58, dropBytes 58 codeWithMarks,
      by decide +kernel, by decide +kernel⟩
  have hown : OwnLines (slice codeWithMarks 2 58) := by
    rw [OwnLines, Markdown.codeRanges, blocks_codeWithMarks]
    decide +kernel
  exact ⟨hwindow, hown, _, parseWindow_codeWithMarks,
    lossless_of_parseWindow hwindow hown parseWindow_codeWithMarks⟩

-- A line that a code block cuts short: a carriage return alone ends a line for Markdown only.
def cutByCode : List Char := "!include a.md\r```\ny\n```\n".toList

theorem blocks_cutByCode : Markdown.blocks (slice cutByCode 0 (byteCount cutByCode)) =
    ([.fenced ⟨14, 23⟩ [] "y\n".toList], []) := by
  cbv

theorem segments_cutByCode : segments cutByCode ⟨0, byteCount cutByCode⟩ =
    [.mark 0 "!include a.md\r".toList ⟨.insert, "!include ".toList, "a.md".toList⟩,
      .fenced ⟨14, 24⟩ [] "y\n".toList] := by
  rw [segments, regions, blocks_cutByCode]
  decide +kernel

theorem parseDocument_cutByCode : parseDocument cutByCode 0 = .ok ⟨0,
    [.directive ⟨"a.md", none, ⟨0, ⟨0, 13⟩, 1⟩⟩,
      .code ⟨none, "", [], .empty, 0, "```", "y\n", "             \r", ⟨0, ⟨14, 24⟩, 1⟩⟩]⟩ := by
  rw [parseDocument, parseWindow, segments_cutByCode]
  cbv

-- A line of it that stops with a newline or with the text does not stop where the code starts.
theorem past_code_of_whole_line {before line : List Char} (hp : before ++ line <+: cutByCode)
    (hwhole : line.getLast? = some '\n' ∨ before ++ line = cutByCode)
    (h : 13 < byteCount (before ++ line)) : 14 < byteCount (before ++ line) := by
  refine Nat.lt_of_le_of_ne h fun heq => ?_
  have hcut : "!include a.md\r".toList <+: cutByCode := by decide +kernel
  have hline := eq_of_byteCount_eq hp hcut (heq.symm.trans (by decide +kernel))
  rcases hwhole with hlast | hall
  · have hend : (before ++ line).getLast? = some '\n' := by
      rw [List.getLast?_append, hlast]
      rfl
    rw [hline] at hend
    revert hend
    decide +kernel
  · rw [hall] at heq
    revert heq
    decide +kernel

-- So what is left out of this text is no set of lines that stop with a newline or with the text,
-- whatever else is asked of them.
theorem not_whole_lines_cutByCode :
    OwnLines cutByCode ∧ ∃ document, parseDocument cutByCode 0 = .ok document ∧
      ∀ Marks : List Char → List Char → Prop,
        (∀ before line, Marks before line → before ++ line <+: cutByCode ∧
          (line.getLast? = some '\n' ∨ before ++ line = cutByCode)) →
        ¬ ∀ position < byteCount cutByCode,
          ((∀ span ∈ (visits document.nodes).filterMap Visit.content?,
            ¬ span.range.Has position) ↔
          ∃ before line, Marks before line ∧ byteCount before ≤ position ∧
            position < byteCount (before ++ line)) := by
  have hown : OwnLines cutByCode := by
    have hslice : slice cutByCode 0 (byteCount cutByCode) = cutByCode := by decide +kernel
    have hblocks := blocks_cutByCode
    rw [hslice] at hblocks
    rw [OwnLines, Markdown.codeRanges, hblocks]
    exact List.pairwise_singleton _ _
  refine ⟨hown, _, parseDocument_cutByCode, fun Marks hmarks hall => ?_⟩
  have hcount : byteCount cutByCode = 24 := by decide +kernel
  rw [hcount] at hall
  simp only [visits, Node.visits, List.append_nil, List.cons_append, List.nil_append,
    List.filterMap_cons, Visit.content?, List.filterMap_nil, List.mem_singleton, forall_eq,
    ByteRange.Has] at hall
  obtain ⟨before, line, hmark, hlo, hhi⟩ := (hall 13 (by omega)).mp (by omega)
  obtain ⟨hp, hwhole⟩ := hmarks before line hmark
  have hpast := past_code_of_whole_line hp hwhole hhi
  have hfree := (hall 14 (by omega)).mpr ⟨before, line, hmark, by omega, hpast⟩
  omega

end LiveDoc
