import LiveDoc.Proofs.Calc.Shifting
import LiveDoc.Proofs.Document.Contents
import LiveDoc.Proofs.Document.Positions
import LiveDoc.Proofs.Markdown.FencedBlocks
import Mathlib

namespace LiveDoc

open Text

-- What is read of a text that stands so many lines and bytes further on: everything that has a
-- position moves, and nothing else changes.
def Span.shift (lines amount : Nat) (span : Span) : Span :=
  ⟨span.source, span.range.shift amount, span.line + lines⟩

def Prose.shift (lines amount : Nat) (own : Prose) : Prose :=
  ⟨own.text, own.span.shift lines amount⟩

def Include.shift (lines amount : Nat) (own : Include) : Include :=
  ⟨own.path, own.part, own.span.shift lines amount⟩

def CodeBlock.shift (lines amount : Nat) (block : CodeBlock) : CodeBlock :=
  { block with span := block.span.shift lines amount }

mutual

def Node.shift (lines amount : Nat) : Node → Node
  | .prose own => .prose (own.shift lines amount)
  | .directive own => .directive (own.shift lines amount)
  | .code block => .code (block.shift lines amount)
  | .conditional guard source children span =>
      .conditional (guard.shift amount) source (shiftAll lines amount children)
        (span.shift lines amount)

def shiftAll (lines amount : Nat) : List Node → List Node
  | [] => []
  | node :: rest => node.shift lines amount :: shiftAll lines amount rest

end

def Visit.shift (lines amount : Nat) : Visit → Visit
  | .prose own => .prose (own.shift lines amount)
  | .directive own => .directive (own.shift lines amount)
  | .code block => .code (block.shift lines amount)
  | .enter guard source span => .enter (guard.shift amount) source (span.shift lines amount)
  | .leave => .leave

def Document.shift (lines amount : Nat) (document : Document) : Document :=
  ⟨document.source, shiftAll lines amount document.nodes⟩

def DocumentError.shift (lines amount : Nat) : DocumentError → DocumentError
  | .unreadable path cause => .unreadable path cause
  | .malformed problem span => .malformed problem (span.shift lines amount)
  | .circular chain span => .circular chain (span.shift lines amount)
  | .noSection name path available span => .noSection name path available (span.shift lines amount)
  | .tooDeep limit span => .tooDeep limit (span.shift lines amount)
  | .notIncluded path cause span => .notIncluded path cause (span.shift lines amount)
  | .unresolved path span => .unresolved path (span.shift lines amount)
  | .unknownModifier tag known span => .unknownModifier tag known (span.shift lines amount)
  | .conflict first second span => .conflict first second (span.shift lines amount)

theorem DocumentError.message_shift (lines amount : Nat) (error : DocumentError) :
    (error.shift lines amount).message = error.message := by
  cases error <;> rfl

theorem shiftAll_eq_map (lines amount : Nat) (nodes : List Node) :
    shiftAll lines amount nodes = nodes.map (Node.shift lines amount) := by
  induction nodes with
  | nil => rfl
  | cons node rest ih => rw [shiftAll, List.map_cons, ih]

theorem shiftAll_reverse (lines amount : Nat) (nodes : List Node) :
    shiftAll lines amount nodes.reverse = (shiftAll lines amount nodes).reverse := by
  rw [shiftAll_eq_map, shiftAll_eq_map, List.map_reverse]

-- The stages before the nodes.
def Region.shift (amount : Nat) : Region → Region
  | .fenced range info content => .fenced (range.shift amount) info content
  | .indented range => .indented (range.shift amount)

def Segment.shift (amount : Nat) : Segment → Segment
  | .prose start piece => .prose (start + amount) piece
  | .mark start line marker => .mark (start + amount) line marker
  | .fenced range info content => .fenced (range.shift amount) info content

def OpenIf.shift (lines amount : Nat) (opened : OpenIf) : OpenIf :=
  ⟨opened.guard.shift amount, opened.source, opened.span.shift lines amount,
    shiftAll lines amount opened.before⟩

def Building.shift (lines amount : Nat) (b : Building) : Building :=
  ⟨b.opened.map (OpenIf.shift lines amount), shiftAll lines amount b.nodes⟩

theorem Region.range_shift (amount : Nat) (region : Region) :
    (region.shift amount).range = region.range.shift amount := by
  cases region <;> rfl

-- What comes of reading a text alone, and of reading it where so many lines and bytes stand before
-- it: the same thing further on, or the same error.
abbrev Moves {α : Type} (lines amount : Nat) (move : Nat → Nat → α → α) :
    Except DocumentError α → Except DocumentError α → Prop :=
  Action.Follows (DocumentError.shift lines amount) fun own later => later = move lines amount own

theorem splitProse_shift (start amount : Nat) (whole : Bool) (ls : List (List Char)) :
    splitProse (start + amount) whole ls =
      (splitProse start whole ls).map (Segment.shift amount) := by
  induction ls generalizing start whole with
  | nil => rfl
  | cons line rest ih =>
      have hrest := ih (start + byteCount line) true
      rw [Nat.add_right_comm] at hrest
      rw [splitProse, splitProse, hrest]
      split
      · rfl
      · cases splitProse (start + byteCount line) true rest with
        | nil => rfl
        | cons segment more => cases segment <;> rfl

theorem atLineStart_behind {before : List Char} (h : atLineStart before = true)
    (front : List Char) : atLineStart (before ++ front) = atLineStart front := by
  by_cases hne : front = []
  · rw [hne, List.append_nil, h]
    rfl
  · rw [atLineStart, atLineStart, List.getLast?_append_of_ne_nil _ hne]

section Pieces

variable {before inside after text : List Char}
  (hbefore : atLineStart before = true) (htext : text = before ++ inside ++ after)

include htext

theorem spanOf_behind {range : ByteRange} (hrange : range.start ≤ byteCount inside) (source : Nat) :
    Span.of text source (range.shift (byteCount before)) =
      (Span.of inside source range).shift (before.count '\n') (byteCount before) := by
  have hline : lineAt text (range.start + byteCount before) =
      lineAt inside range.start + before.count '\n' := by
    rw [lineAt, lineAt, htext, List.append_assoc, Nat.add_comm range.start, takeBytes_append,
      takeBytes_append_of_le hrange, List.count_append]
    omega
  rw [Span.of, ByteRange.shift, hline]
  rfl

include hbefore

theorem startsLine_behind {front rest : List Char} (hinside : inside = front ++ rest) :
    startsLine text (byteCount front + byteCount before) = startsLine inside (byteCount front) := by
  have hsplit : text = (before ++ front) ++ (rest ++ after) := by
    rw [htext, hinside]
    simp only [List.append_assoc]
  rw [hsplit, Nat.add_comm, ← byteCount_append, startsLine_append, hinside, startsLine_append,
    atLineStart_behind hbefore]

theorem proseBetween_behind {front rest : List Char} (hinside : inside = front ++ rest) {stop : Nat}
    (hstop : stop ≤ byteCount inside) :
    proseBetween text (byteCount front + byteCount before) (stop + byteCount before) =
      (proseBetween inside (byteCount front) stop).map (Segment.shift (byteCount before)) := by
  have hfront : byteCount front ≤ byteCount inside := by
    rw [hinside, byteCount_append]
    omega
  rw [proseBetween, startsLine_behind hbefore htext hinside, htext, slice_inside _ _ hfront hstop,
    splitProse_shift, proseBetween]

-- A block closes on a line of the window. What is behind the window is not looked at.
theorem closingLine_behind {front rest : List Char} (hinside : inside = front ++ rest) :
    closingLine text (byteCount front + byteCount before) (byteCount inside + byteCount before) =
      closingLine inside (byteCount front) (byteCount inside) + byteCount before := by
  have hsplit : text = (before ++ front) ++ rest ++ after := by
    rw [htext, hinside]
    simp only [List.append_assoc]
  have hown := closingLine_append front rest []
  have hlater := closingLine_append (before ++ front) rest after
  rw [List.append_nil, ← hinside, ← byteCount_append, ← hinside] at hown
  rw [← hsplit, ← byteCount_append, List.append_assoc before, ← hinside, byteCount_append,
    byteCount_append, closing, atLineStart_behind hbefore, ← closing] at hlater
  rw [Nat.add_comm _ (byteCount before), Nat.add_comm _ (byteCount before), hlater, hown]
  omega

theorem regionOf_behind {leaf : Markdown.Leaf}
    (hleaf : ∀ range ∈ leaf.codeRange?, ∃ front rest, inside = front ++ rest ∧
      range.stop = byteCount front) :
    regionOf text ⟨byteCount before, byteCount (before ++ inside)⟩ leaf =
      (regionOf inside ⟨0, byteCount inside⟩ leaf).map (Region.shift (byteCount before)) := by
  have hclosing : ∀ range : ByteRange, leaf.codeRange? = some range →
      closingLine text (range.stop + byteCount before) (byteCount (before ++ inside)) =
        closingLine inside range.stop (byteCount inside) + byteCount before := by
    intro range hrange
    obtain ⟨front, rest, hinside, hstop⟩ := hleaf range hrange
    rw [byteCount_append, Nat.add_comm (byteCount before), hstop]
    exact closingLine_behind hbefore htext hinside
  cases leaf with
  | heading start level content => rfl
  | fenced range info content =>
      have hown := hclosing range rfl
      simp only [regionOf, ByteRange.shift, Option.map_some, Region.shift, hown, Nat.add_zero]
  | indented range =>
      have hown := hclosing range rfl
      simp only [regionOf, ByteRange.shift, Option.map_some, Region.shift, hown, Nat.add_zero]

omit hbefore in
theorem slice_window :
    slice text (byteCount before) (byteCount (before ++ inside)) = inside := by
  rw [htext, byteCount_append, slice_append]

theorem regions_behind :
    regions text ⟨byteCount before, byteCount (before ++ inside)⟩ =
      (regions inside ⟨0, byteCount inside⟩).map (Region.shift (byteCount before)) := by
  have hwhole : slice inside 0 (byteCount inside) = inside := by
    simpa using slice_append [] inside []
  have hlaid := (Markdown.laid_codeRanges inside).holds
  rw [regions, regions, slice_window htext, hwhole, List.map_filterMap]
  refine List.filterMap_congr fun leaf hmem => ?_
  refine regionOf_behind hbefore htext fun range hrange => ?_
  obtain ⟨body, front, rest, hinside, rfl⟩ :=
    hlaid range (List.mem_filterMap.mpr ⟨leaf, hmem, hrange⟩)
  exact ⟨front ++ body, rest, hinside, by simp⟩

omit hbefore in
theorem codeSegments_behind {region : Region} (hregion : region.range.Windows inside) :
    codeSegments text (region.shift (byteCount before)) =
      (codeSegments inside region).map (Segment.shift (byteCount before)) := by
  obtain ⟨front, body, rest, hinside, hrange⟩ := hregion
  cases region with
  | fenced range info content => rfl
  | indented range =>
      have hstart : range.start ≤ byteCount inside ∧ range.stop ≤ byteCount inside := by
        rw [show range = _ from hrange, hinside]
        simp only [byteCount_append]
        omega
      simp only [Region.shift, codeSegments, ByteRange.shift, htext,
        slice_inside before after hstart.1 hstart.2, Nat.add_lt_add_iff_right]
      split <;> rfl

-- The pieces of a window, one code block after the other.
theorem segmentsFrom_behind {stop : Nat} (hstop : stop ≤ byteCount inside) {rs : List Region}
    (hregions : ∀ region ∈ rs, region.range.Windows inside) {front rest : List Char}
    (hinside : inside = front ++ rest) :
    segmentsFrom text (stop + byteCount before) (byteCount front + byteCount before)
        (rs.map (Region.shift (byteCount before))) =
      (segmentsFrom inside stop (byteCount front) rs).map (Segment.shift (byteCount before)) := by
  induction rs generalizing front rest with
  | nil => exact proseBetween_behind hbefore htext hinside hstop
  | cons region more ih =>
      obtain ⟨hregion, hmore⟩ := List.forall_mem_cons.mp hregions
      have hcode := codeSegments_behind htext hregion
      obtain ⟨passed, body, later, hsplit, hrange⟩ := hregion
      have hstart : region.range.start ≤ byteCount inside := by
        rw [hrange, hsplit]
        simp only [byteCount_append]
        omega
      have hgap := proseBetween_behind hbefore htext hinside hstart
      have hrest := ih hmore hsplit
      rw [← show region.range.stop = byteCount (passed ++ body) by rw [hrange]] at hrest
      rw [List.map_cons, segmentsFrom, segmentsFrom, Region.range_shift, List.map_append,
        List.map_append, ← hgap, ← hcode, ← hrest]
      rfl

theorem segments_behind :
    segments text ⟨byteCount before, byteCount (before ++ inside)⟩ =
      (segments inside ⟨0, byteCount inside⟩).map (Segment.shift (byteCount before)) := by
  have hall := segmentsFrom_behind hbefore htext (Nat.le_refl (byteCount inside))
    (windows_of_mem_regions (windows_whole inside)) (List.nil_append inside).symm
  rw [byteCount_nil, Nat.zero_add, Nat.add_comm, ← byteCount_append] at hall
  rw [segments, segments, regions_behind hbefore htext]
  exact hall

theorem lineLead_behind {front rest : List Char} (hinside : inside = front ++ rest) :
    lineLead text (byteCount front + byteCount before) = lineLead inside (byteCount front) := by
  have hsplit : text = (before ++ front) ++ (rest ++ after) := by
    rw [htext, hinside]
    simp only [List.append_assoc]
  rw [hsplit, Nat.add_comm, ← byteCount_append, lineLead_byteCount, hinside, lineLead_byteCount,
    openLine_append (.inl hbefore)]

omit hbefore in
-- A fence ends in the window: with the window a line ends, or the whole text.
theorem fenceAt_behind {front tail : List Char} {mark : Char} (hinside : inside = front ++ mark :: tail)
    (hmark : mark ≠ '\n') (hend : after = [] ∨ atLineStart (before ++ inside) = true) :
    fenceAt text (byteCount front + byteCount before) = fenceAt inside (byteCount front) := by
  have hsplit : text = (before ++ front) ++ (mark :: (tail ++ after)) := by
    rw [htext, hinside]
    simp only [List.append_assoc, List.cons_append]
  have hfence : (tail ++ after).takeWhile (· == mark) = tail.takeWhile (· == mark) := by
    rcases hend with rfl | hend
    · rw [List.append_nil]
    · have hlast := getLast?_of_atLineStart hend (by simp [hinside])
      rw [hinside, ← List.append_assoc, List.getLast?_append_of_ne_nil _ (List.cons_ne_nil _ _)] at hlast
      have hmem : '\n' ∈ tail :=
        (List.mem_cons.mp (List.mem_of_getLast? hlast)).resolve_left (Ne.symm hmark)
      have hstop : (tail.takeWhile (· == mark)).length ≠ tail.length := by
        intro hlength
        have hall := (List.takeWhile_prefix (· == mark)).eq_of_length hlength
        have hsame := List.takeWhile_eq_self_iff.mp hall '\n' hmem
        exact hmark (beq_iff_eq.mp hsame).symm
      rw [List.takeWhile_append, if_neg hstop]
  rw [hsplit, Nat.add_comm, ← byteCount_append, fenceAt, dropBytes_byteCount, hinside, fenceAt,
    dropBytes_byteCount]
  dsimp only
  rw [hfence]

variable (hend : after = [] ∨ atLineStart (before ++ inside) = true)

include hend

-- What a code block has from its line is the same.
theorem codeBlock_behind {range : ByteRange} {info content front tail : List Char} {mark : Char}
    (hinside : inside = front ++ mark :: tail) (hstart : range.start = byteCount front)
    (hmark : mark ≠ '\n') (source : Nat) :
    Moves (before.count '\n') (byteCount before) CodeBlock.shift
      (codeBlock inside source range info content)
      (codeBlock text source (range.shift (byteCount before)) info content) := by
  have hle : range.start ≤ byteCount inside := by
    rw [hstart, hinside, byteCount_append]
    omega
  have hspan := spanOf_behind htext hle source
  have hlead := lineLead_behind hbefore htext hinside
  have hfence := fenceAt_behind htext hinside hmark hend
  rw [← hstart] at hlead hfence
  unfold codeBlock
  dsimp only [ByteRange.shift] at hspan ⊢
  rw [hspan, hlead, hfence]
  cases splitInfo info with
  | error problem => exact .error _
  | ok parts => exact .ok rfl

omit hbefore hend in
-- A stretch that starts in the window.
theorem stretchSpan_behind {front rest : List Char} (hinside : inside = front ++ rest)
    (size source : Nat) :
    Span.of text source ⟨byteCount front + byteCount before,
        byteCount front + byteCount before + size⟩ =
      (Span.of inside source ⟨byteCount front, byteCount front + size⟩).shift (before.count '\n')
        (byteCount before) := by
  have hle : (⟨byteCount front, byteCount front + size⟩ : ByteRange).start ≤ byteCount inside := by
    rw [hinside, byteCount_append]
    exact Nat.le_add_right ..
  rw [Nat.add_right_comm]
  exact spanOf_behind htext hle source

omit hbefore hend in
-- A mark is read alike, also where its condition is refused.
theorem markReading_behind {front line rest : List Char} {marker : Marker}
    (hinside : inside = front ++ line ++ rest) (hmarker : marker? line = some marker) (source : Nat) :
    Moves (before.count '\n') (byteCount before) Visit.shift
      (marker.reading inside source (byteCount front) line)
      (marker.reading text source (byteCount front + byteCount before) line) := by
  have hspan : markSpan text source (byteCount front + byteCount before) line = _ :=
    stretchSpan_behind htext (hinside.trans (List.append_assoc ..)) _ source
  have hguard := @Calc.shifts_parseGuard (byteCount before) (byteCount front + byteCount marker.front)
    marker.argument
  obtain ⟨lead, gap, trailing, hon⟩ := marker?_on hmarker
  have hline : byteCount line =
      byteCount marker.front + byteCount marker.argument + byteCount trailing := by
    rw [hon.line_eq, ← hon.front_eq, byteCount_append, byteCount_append]
  have hwhole : byteCount inside = byteCount front + byteCount line + byteCount rest := by
    rw [hinside, byteCount_append, byteCount_append]
  unfold Marker.reading
  dsimp only
  rw [hspan, Nat.add_right_comm (byteCount front) (byteCount before)]
  cases marker.keyword with
  | insert =>
      dsimp only
      cases includeTarget marker.argument with
      | error problem => exact .error _
      | ok target => exact .ok rfl
  | startIf =>
      dsimp only
      split
      · exact .error _
      · generalize hown :
          Calc.parseGuard marker.argument (byteCount front + byteCount marker.front) = own at hguard
        generalize Calc.parseGuard marker.argument
          (byteCount front + byteCount marker.front + byteCount before) = later at hguard
        cases hguard with
        | ok hshift =>
            rw [hshift]
            exact .ok rfl
        | error fault =>
            obtain ⟨words, ahead, back, hargument, hrange⟩ := Calc.holds_of_parseGuard_eq_error hown
            have hcount := congrArg byteCount hargument
            rw [byteCount_append, byteCount_append] at hcount
            have hle : fault.range.start ≤ byteCount inside := by
              rw [hrange]
              dsimp only
              omega
            dsimp only [Calc.SyntaxError.shift]
            rw [spanOf_behind htext hle source]
            exact .error _
  | endIf =>
      dsimp only
      split
      · exact .error _
      · exact .ok rfl

theorem reading_behind {segment : Segment}
    (hmem : segment ∈ segments inside ⟨0, byteCount inside⟩) (source : Nat) :
    Moves (before.count '\n') (byteCount before) Visit.shift (segment.reading inside source)
      ((segment.shift (byteCount before)).reading text source) := by
  obtain ⟨front, stretch, rest, hinside, htakes, -⟩ :=
    placed_segments (windows_whole inside) segment hmem
  cases segment with
  | prose start piece =>
      obtain ⟨rfl, rfl⟩ := htakes
      dsimp only [Segment.reading, Segment.shift]
      rw [stretchSpan_behind htext (hinside.trans (List.append_assoc ..))]
      exact .ok rfl
  | mark start line marker =>
      obtain ⟨rfl, rfl, hmarker⟩ := htakes
      exact markReading_behind htext hinside hmarker source
  | fenced range info content =>
      obtain ⟨own, hleaf, hstart⟩ := @exists_leaf_of_fenced_mem_segments inside _ range info content
        [] inside [] (by simp) (by simp) hmem
      obtain ⟨passed, mark, tail, hsplit, hown, hmark⟩ := Markdown.exists_mark_of_mem_blocks hleaf
      rw [byteCount_nil, Nat.zero_add, hown] at hstart
      have hnewline : mark ≠ '\n' := by
        rcases hmark with rfl | rfl <;> decide
      exact (codeBlock_behind hbefore htext hend hsplit hstart hnewline source).map
        fun block later hlater => congrArg Visit.code hlater

end Pieces

section Trees

variable {lines amount : Nat}

theorem take_shift (b : Building) (span : Span) (visit : Visit) :
    Moves lines amount Building.shift (b.take span visit)
      ((b.shift lines amount).take (span.shift lines amount) (visit.shift lines amount)) := by
  cases visit with
  | prose | directive | code | enter => exact .ok rfl
  | leave =>
      obtain ⟨opened, nodes⟩ := b
      cases opened with
      | nil => exact .error _
      | cons top rest =>
          refine .ok ?_
          simp only [Building.shift, OpenIf.shift, shiftAll, Node.shift, shiftAll_reverse]

end Trees

section Windows

variable {before inside after text : List Char}
  (hbefore : atLineStart before = true) (htext : text = before ++ inside ++ after)
  (hend : after = [] ∨ atLineStart (before ++ inside) = true)

include htext in
theorem segmentSpan_behind {segment : Segment} (hplaced : segment.Placed inside) (source : Nat) :
    (segment.shift (byteCount before)).span text source =
      (segment.span inside source).shift (before.count '\n') (byteCount before) := by
  obtain ⟨front, stretch, rest, hinside, htakes, -⟩ := hplaced
  have hrest := hinside.trans (List.append_assoc ..)
  cases segment with
  | prose start piece =>
      obtain ⟨rfl, rfl⟩ := htakes
      exact stretchSpan_behind htext hrest _ source
  | mark start line marker =>
      obtain ⟨rfl, rfl, -⟩ := htakes
      exact stretchSpan_behind htext hrest _ source
  | fenced range info content =>
      refine spanOf_behind htext ?_ source
      rw [show range = _ from htakes]
      dsimp only
      rw [hrest, byteCount_append]
      exact Nat.le_add_right ..

include hbefore htext hend in
theorem buildNodes_behind (source : Nat) :
    Moves (before.count '\n') (byteCount before) shiftAll
      (buildNodes inside source (segments inside ⟨0, byteCount inside⟩))
      (buildNodes text source ((segments inside ⟨0, byteCount inside⟩).map
        (Segment.shift (byteCount before)))) := by
  have hplaced := placed_segments (windows_whole inside)
  unfold buildNodes
  refine (Action.follows_foldlM (R := fun own later =>
    later = Building.shift (before.count '\n') (byteCount before) own) ?_ rfl).bind ?_
  · rintro segment hmem b _ rfl
    rw [applySegment_eq_reading, applySegment_eq_reading,
      segmentSpan_behind htext (hplaced segment hmem)]
    refine (reading_behind hbefore htext hend hmem source).bind ?_
    rintro visit _ rfl
    exact take_shift b _ visit
  · rintro ⟨opened, nodes⟩ _ rfl
    cases opened with
    | nil => exact .ok (shiftAll_reverse ..).symm
    | cons top rest => exact .error _

end Windows

-- A window from the start of a line to the end of one is read as its text is read alone: the same
-- tree further on, or the same error. Nothing that stands before it or behind it is looked at.
theorem window_reads_as_its_text (before inside after : List Char) (source : Nat)
    (hstart : atLineStart before = true)
    (hend : after = [] ∨ atLineStart (before ++ inside) = true) :
    (∀ document, parseDocument inside source = .ok document →
      parseWindow (before ++ inside ++ after) source
          ⟨byteCount before, byteCount (before ++ inside)⟩ =
        .ok (document.shift (before.count '\n') (byteCount before))) ∧
    ∀ error, parseDocument inside source = .error error →
      parseWindow (before ++ inside ++ after) source
          ⟨byteCount before, byteCount (before ++ inside)⟩ =
        .error (error.shift (before.count '\n') (byteCount before)) ∧
      (error.shift (before.count '\n') (byteCount before)).message = error.message := by
  have hfollows := buildNodes_behind hstart rfl hend source
  rw [← segments_behind hstart (rfl : _ = before ++ inside ++ after)] at hfollows
  unfold parseDocument parseWindow
  generalize buildNodes inside source _ = own at hfollows ⊢
  generalize buildNodes _ source _ = later at hfollows ⊢
  cases hfollows with
  | ok hnodes =>
      refine ⟨fun document hdocument => ?_, nofun⟩
      cases hdocument
      rw [hnodes]
      rfl
  | error error =>
      refine ⟨nofun, fun own hown => ?_⟩
      cases hown
      exact ⟨rfl, DocumentError.message_shift ..⟩

-- Code in a quote, under a condition that a line of the window ends, and a condition that cannot be
-- read. The text goes on with a fence behind the window.
def quotedCode : List Char := "!if x\n> ```\n> y\n> ```\n!endif\n".toList

theorem parseDocument_quotedCode : parseDocument quotedCode 0 = .ok ⟨0,
    [.conditional ⟨.var "x" ⟨4, 5⟩, rfl⟩ "x"
      [.prose ⟨"> ", ⟨0, ⟨6, 8⟩, 2⟩⟩,
        .code ⟨none, "", [], .empty, 0, "```", "y\n", "> ", ⟨0, ⟨8, 22⟩, 2⟩⟩]
      ⟨0, ⟨0, 5⟩, 1⟩]⟩ := by
  have hblocks : Markdown.blocks (slice quotedCode 0 29) = ([.fenced ⟨8, 21⟩ [] "y\n".toList], []) := by
    cbv
  have hsegments : segments quotedCode ⟨0, 29⟩ =
      [.mark 0 "!if x\n".toList ⟨.startIf, "!if ".toList, ['x']⟩, .prose 6 "> ".toList,
        .fenced ⟨8, 22⟩ [] "y\n".toList, .mark 22 "!endif\n".toList ⟨.endIf, "!endif".toList, []⟩] := by
    rw [segments, regions, hblocks]
    decide +kernel
  rw [parseDocument, show byteCount quotedCode = 29 from by decide +kernel, parseWindow, hsegments]
  cbv

theorem parseDocument_openGuard : parseDocument "!if (\n".toList 0 =
    .error (.malformed (.badGuard .unexpectedEnd) ⟨0, ⟨4, 5⟩, 1⟩) := by
  have hblocks : Markdown.blocks (slice "!if (\n".toList 0 6) = ([], []) := by
    cbv
  have hsegments : segments "!if (\n".toList ⟨0, 6⟩ =
      [.mark 0 "!if (\n".toList ⟨.startIf, "!if ".toList, ['(']⟩] := by
    rw [segments, regions, hblocks]
    decide +kernel
  rw [parseDocument, show byteCount "!if (\n".toList = 6 from by decide +kernel, parseWindow, hsegments]
  cbv

theorem window_reads_as_quotedCode :
    parseWindow ("é\n\n".toList ++ quotedCode ++ "```\n".toList) 0 ⟨4, 33⟩ = .ok ⟨0,
      [.conditional ⟨.var "x" ⟨8, 9⟩, rfl⟩ "x"
        [.prose ⟨"> ", ⟨0, ⟨10, 12⟩, 4⟩⟩,
          .code ⟨none, "", [], .empty, 0, "```", "y\n", "> ", ⟨0, ⟨12, 26⟩, 4⟩⟩]
        ⟨0, ⟨4, 9⟩, 3⟩]⟩ ∧
    parseWindow ("é\n\n".toList ++ "!if (\n".toList ++ "```\n".toList) 0 ⟨4, 10⟩ =
      .error (.malformed (.badGuard .unexpectedEnd) ⟨0, ⟨8, 9⟩, 3⟩) := by
  have hbytes : byteCount "é\n\n".toList = 4 := by decide +kernel
  have hlines : "é\n\n".toList.count '\n' = 2 := by decide +kernel
  obtain ⟨hread, -⟩ := window_reads_as_its_text "é\n\n".toList quotedCode "```\n".toList 0
    (by decide) (.inr (by decide))
  obtain ⟨-, hrefused⟩ := window_reads_as_its_text "é\n\n".toList "!if (\n".toList "```\n".toList 0
    (by decide) (.inr (by decide))
  have hwindow := hread _ parseDocument_quotedCode
  obtain ⟨hlater, -⟩ := hrefused _ parseDocument_openGuard
  rw [byteCount_append, hbytes, hlines] at hwindow hlater
  exact ⟨hwindow, hlater⟩

end LiveDoc
