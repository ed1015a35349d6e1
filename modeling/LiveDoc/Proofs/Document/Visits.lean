import LiveDoc.Document.Parser
import Mathlib.Data.List.Forall2

namespace LiveDoc

open Text

-- Induction over nodes with the children of the first one and the nodes that follow it.
@[elab_as_elim] theorem nodesInduction {motive : List Node → Prop} (nil : motive [])
    (prose : ∀ own rest, motive rest → motive (.prose own :: rest))
    (directive : ∀ own rest, motive rest → motive (.directive own :: rest))
    (code : ∀ own rest, motive rest → motive (.code own :: rest))
    (conditional : ∀ guard source children span rest, motive children → motive rest →
      motive (.conditional guard source children span :: rest))
    (nodes : List Node) : motive nodes :=
  @Node.rec_1 (fun node => ∀ rest, motive rest → motive (node :: rest)) motive prose directive code
    (fun guard source children span ih rest => conditional guard source children span rest ih)
    nil (fun _ rest ihNode ihRest => ihNode rest ihRest) nodes

-- A step of a walk over a tree in document order. A condition is entered, its children are
-- visited, and it is left.
inductive Visit where
  | prose (prose : Prose)
  | directive (directive : Include)
  | code (block : CodeBlock)
  | enter (guard : Calc.Guard) (source : String) (span : Span)
  | leave

mutual

def Node.visits : Node → List Visit
  | .prose prose => [.prose prose]
  | .directive directive => [.directive directive]
  | .code block => [.code block]
  | .conditional guard source children span =>
      .enter guard source span :: (visits children ++ [.leave])

def visits : List Node → List Visit
  | [] => []
  | node :: rest => node.visits ++ visits rest

end

theorem visits_append (front back : List Node) :
    visits (front ++ back) = visits front ++ visits back := by
  induction front with
  | nil => rfl
  | cons node rest ih => simp only [List.cons_append, visits, ih, List.append_assoc]

theorem visits_singleton (node : Node) : visits [node] = node.visits := by
  simp only [visits, List.append_nil]

-- The part of a mark's line that a node of the tree covers.
def markSpan (text : List Char) (source start : Nat) (line : List Char) : Span :=
  Span.of text source ⟨start, start + byteCount (trimEnd isBlank line)⟩

-- What the walk meets for each segment. It does not depend on the conditions that are open.
inductive Shows (text : List Char) (source : Nat) : Segment → Visit → Prop
  | prose (start : Nat) (piece : List Char) :
      Shows text source (.prose start piece)
        (.prose ⟨String.ofList piece, Span.of text source ⟨start, start + byteCount piece⟩⟩)
  | fenced {range : ByteRange} {info content : List Char} {block : CodeBlock} :
      codeBlock text source range info content = .ok block →
      Shows text source (.fenced range info content) (.code block)
  | insert {start : Nat} {line : List Char} {marker : Marker} (path : String)
      (part : Option String) :
      marker.keyword = .insert →
      Shows text source (.mark start line marker)
        (.directive ⟨path, part, markSpan text source start line⟩)
  | startIf {start : Nat} {line : List Char} {marker : Marker} {guard : Calc.Guard} :
      marker.keyword = .startIf → marker.argument ≠ [] →
      Calc.parseGuard marker.argument (start + byteCount marker.front) = .ok guard →
      Shows text source (.mark start line marker)
        (.enter guard (String.ofList marker.argument) (markSpan text source start line))
  | endIf {start : Nat} {line : List Char} {marker : Marker} :
      marker.keyword = .endIf → Shows text source (.mark start line marker) .leave

-- What a mark says by itself, whatever conditions are open around it.
def Marker.reading (marker : Marker) (text : List Char) (source start : Nat) (line : List Char) :
    Except DocumentError Visit :=
  let span := markSpan text source start line
  match marker.keyword with
  | .insert =>
      match includeTarget marker.argument with
      | .error problem => .error (.malformed problem span)
      | .ok (path, part) => .ok (.directive ⟨String.ofList path, part.map String.ofList, span⟩)
  | .startIf =>
      if marker.argument = [] then .error (.malformed .ifWithoutGuard span)
      else match Calc.parseGuard marker.argument (start + byteCount marker.front) with
        | .error e => .error (.malformed (.badGuard e.fault) (Span.of text source e.range))
        | .ok guard => .ok (.enter guard (String.ofList marker.argument) span)
  | .endIf =>
      if marker.argument ≠ [] then .error (.malformed .textAfterEndif span) else .ok .leave

def Segment.reading (text : List Char) (source : Nat) : Segment → Except DocumentError Visit
  | .prose start piece =>
      .ok (.prose ⟨String.ofList piece, Span.of text source ⟨start, start + byteCount piece⟩⟩)
  | .mark start line marker => marker.reading text source start line
  | .fenced range info content => (codeBlock text source range info content).map .code

-- What a segment covers, a mark without the blanks behind it.
def Segment.span (text : List Char) (source : Nat) : Segment → Span
  | .prose start piece => Span.of text source ⟨start, start + byteCount piece⟩
  | .mark start line _ => markSpan text source start line
  | .fenced range _ _ => Span.of text source range

-- What a step of the walk does to the tree that is being built. Only an end can fail, at the
-- place that is given for it.
def Building.take (b : Building) (span : Span) : Visit → Except DocumentError Building
  | .prose own => .ok (b.push (.prose own))
  | .directive own => .ok (b.push (.directive own))
  | .code block => .ok (b.push (.code block))
  | .enter guard source own => .ok ⟨⟨guard, source, own, b.nodes⟩ :: b.opened, []⟩
  | .leave =>
      match b.opened with
      | [] => .error (.malformed .endifWithoutIf span)
      | top :: rest =>
          .ok ⟨rest, .conditional top.guard top.source b.nodes.reverse top.span :: top.before⟩

section Steps

variable (text : List Char) (source : Nat) (b : Building)

theorem applyMark_eq_reading (start : Nat) (line : List Char) (marker : Marker) :
    applyMark text source start line marker b =
      marker.reading text source start line >>= b.take (markSpan text source start line) := by
  obtain ⟨keyword, front, argument⟩ := marker
  cases keyword with
  | insert =>
      simp only [applyMark, Marker.reading]
      cases includeTarget argument <;> rfl
  | startIf =>
      by_cases hargument : argument = []
      · simp only [applyMark, Marker.reading, if_pos hargument]
        rfl
      · simp only [applyMark, Marker.reading, if_neg hargument]
        cases Calc.parseGuard argument (start + byteCount front) <;> rfl
  | endIf =>
      by_cases hargument : argument = []
      · simp only [applyMark, Marker.reading, hargument, ne_eq, not_true, if_false]
        rfl
      · simp only [applyMark, Marker.reading, hargument, ne_eq, not_false_iff, if_true]
        rfl

-- A segment is read by itself, and what it says is then put into the tree.
theorem applySegment_eq_reading (segment : Segment) :
    applySegment text source b segment =
      segment.reading text source >>= b.take (segment.span text source) := by
  cases segment with
  | prose start piece => rfl
  | mark start line marker => exact applyMark_eq_reading text source b start line marker
  | fenced range info content =>
      simp only [applySegment, Segment.reading]
      cases codeBlock text source range info content <;> rfl

end Steps

theorem shows_of_reading {text : List Char} {source : Nat} {segment : Segment} {visit : Visit}
    (h : segment.reading text source = .ok visit) : Shows text source segment visit := by
  cases segment with
  | prose start piece =>
      cases h
      exact .prose start piece
  | mark start line marker =>
      simp only [Segment.reading, Marker.reading] at h
      split at h
      · rename_i hkeyword
        split at h
        · cases h
        · cases h
          exact .insert _ _ hkeyword
      · rename_i hkeyword
        split at h
        · cases h
        · rename_i hargument
          split at h
          · cases h
          · rename_i hguard
            cases h
            exact .startIf hkeyword hargument hguard
      · rename_i hkeyword
        split at h
        · cases h
        · cases h
          exact .endIf hkeyword
  | fenced range info content =>
      simp only [Segment.reading] at h
      cases hblock : codeBlock text source range info content with
      | error e =>
          rw [hblock] at h
          cases h
      | ok block =>
          rw [hblock] at h
          cases h
          exact .fenced hblock

theorem span_of_codeBlock {text info content : List Char} {source : Nat} {range : ByteRange}
    {block : CodeBlock} (h : codeBlock text source range info content = .ok block) :
    block.span = Span.of text source range := by
  unfold codeBlock at h
  dsimp only at h
  split at h
  · cases h
  · cases h
    rfl

-- The walk over what has been built so far, from the outermost open condition inwards.
def OpenIf.visits (opened : OpenIf) : List Visit :=
  LiveDoc.visits opened.before.reverse ++ [.enter opened.guard opened.source opened.span]

def Building.visits (b : Building) : List Visit :=
  b.opened.reverse.flatMap OpenIf.visits ++ LiveDoc.visits b.nodes.reverse

theorem visits_push (b : Building) (node : Node) :
    (b.push node).visits = b.visits ++ node.visits := by
  simp only [Building.visits, Building.push, List.reverse_cons, visits_append, visits_singleton,
    List.append_assoc]

section Steps

variable {text : List Char} {source : Nat} {b next : Building}

-- What a step does: it adds one visit, that of its segment.
theorem visits_take {span : Span} {visit : Visit} (h : b.take span visit = .ok next) :
    next.visits = b.visits ++ [visit] := by
  cases visit with
  | prose | directive | code =>
      cases h
      exact visits_push b _
  | enter guard words own =>
      cases h
      simp [Building.visits, OpenIf.visits, visits]
  | leave =>
      simp only [Building.take] at h
      split at h
      · cases h
      · rename_i top rest hopened
        cases h
        simp [Building.visits, OpenIf.visits, visits, Node.visits, visits_append, hopened]

-- A segment is read by itself, and then the tree takes what it says.
theorem exists_reading_of_applySegment {segment : Segment}
    (h : applySegment text source b segment = .ok next) :
    ∃ visit, segment.reading text source = .ok visit ∧
      b.take (segment.span text source) visit = .ok next := by
  rw [applySegment_eq_reading] at h
  cases hreading : segment.reading text source with
  | error e =>
      rw [hreading] at h
      cases h
  | ok visit =>
      rw [hreading] at h
      exact ⟨visit, rfl, h⟩

theorem visits_applySegment {segment : Segment} (h : applySegment text source b segment = .ok next) :
    ∃ visit, Shows text source segment visit ∧ next.visits = b.visits ++ [visit] := by
  obtain ⟨visit, hreading, htake⟩ := exists_reading_of_applySegment h
  exact ⟨visit, shows_of_reading hreading, visits_take htake⟩

-- What the segments say, one after the other, is added.
theorem readings_of_foldlM {ss : List Segment}
    (h : ss.foldlM (applySegment text source) b = .ok next) :
    ∃ vs : List Visit, ss.map (Segment.reading text source) = vs.map .ok ∧
      next.visits = b.visits ++ vs := by
  induction ss generalizing b with
  | nil =>
      cases h
      exact ⟨[], rfl, (List.append_nil _).symm⟩
  | cons segment rest ih =>
      rw [List.foldlM_cons] at h
      cases hstep : applySegment text source b segment with
      | error e =>
          rw [hstep] at h
          cases h
      | ok middle =>
          rw [hstep] at h
          obtain ⟨visit, hreading, htake⟩ := exists_reading_of_applySegment hstep
          obtain ⟨vs, hvs, hnext⟩ := ih h
          refine ⟨visit :: vs, by rw [List.map_cons, List.map_cons, hreading, hvs], ?_⟩
          rw [hnext, visits_take htake, List.append_assoc, List.singleton_append]

theorem forall₂_shows {ss : List Segment} {vs : List Visit}
    (h : ss.map (Segment.reading text source) = vs.map .ok) :
    List.Forall₂ (Shows text source) ss vs := by
  rw [← List.forall₂_eq_eq_eq, List.forall₂_map_left_iff, List.forall₂_map_right_iff] at h
  exact h.imp fun _ _ hreading => shows_of_reading hreading

theorem visits_foldlM {ss : List Segment}
    (h : ss.foldlM (applySegment text source) b = .ok next) :
    ∃ vs, List.Forall₂ (Shows text source) ss vs ∧ next.visits = b.visits ++ vs := by
  obtain ⟨vs, hvs, hnext⟩ := readings_of_foldlM h
  exact ⟨vs, forall₂_shows hvs, hnext⟩

theorem buildNodes_of_foldlM {ss : List Segment}
    (h : ss.foldlM (applySegment text source) ⟨[], []⟩ = .ok next) :
    buildNodes text source ss =
      match next.opened with
      | [] => .ok next.nodes.reverse
      | top :: _ => .error (.malformed .ifWithoutEndif top.span) := by
  rw [buildNodes, h]
  rfl

end Steps

-- The walk over a tree that was built meets what the segments say, one after the other.
theorem readings_of_buildNodes {text : List Char} {source : Nat} {ss : List Segment}
    {nodes : List Node} (h : buildNodes text source ss = .ok nodes) :
    ss.map (Segment.reading text source) = (visits nodes).map .ok := by
  cases hrun : ss.foldlM (applySegment text source) ⟨[], []⟩ with
  | error other =>
      rw [buildNodes, hrun] at h
      cases h
  | ok next =>
      obtain ⟨vs, hvs, hnext⟩ := readings_of_foldlM hrun
      rw [buildNodes_of_foldlM hrun] at h
      split at h
      · rename_i hopened
        cases h
        have hown : next.visits = visits next.nodes.reverse := by
          simp [Building.visits, hopened]
        rw [hvs, ← hown, hnext]
        rfl
      · cases h

theorem readings_of_parseWindow {text : List Char} {source : Nat} {window : ByteRange}
    {document : Document} (h : parseWindow text source window = .ok document) :
    (segments text window).map (Segment.reading text source) =
      (visits document.nodes).map .ok := by
  unfold parseWindow at h
  cases hnodes : buildNodes text source (segments text window) with
  | error e =>
      rw [hnodes] at h
      cases h
  | ok nodes =>
      rw [hnodes] at h
      cases h
      exact readings_of_buildNodes hnodes

theorem shows_parseWindow {text : List Char} {source : Nat} {window : ByteRange}
    {document : Document} (h : parseWindow text source window = .ok document) :
    List.Forall₂ (Shows text source) (segments text window) (visits document.nodes) :=
  forall₂_shows (readings_of_parseWindow h)

end LiveDoc
