import LiveDoc.Proofs.Calc.Places
import LiveDoc.Proofs.Document.Marks
import LiveDoc.Proofs.Document.Places
import LiveDoc.Proofs.Document.Visits

namespace LiveDoc

open Text

-- Every position that a step of the walk carries. The variables of a condition are named where
-- they stand.
def Visit.Valid (visit : Visit) (map : SourceMap) : Prop :=
  match visit with
  | .prose own => own.span.Valid map
  | .directive own => own.span.Valid map
  | .code own => own.span.Valid map
  | .enter guard _ span => span.Valid map ∧
      ∀ own ∈ guard.expr.variables, Span.Holds ⟨span.source, own.2, span.line⟩ map own.1.toList
  | .leave => True

-- A condition with its children among the steps of a walk.
theorem forall_visits_conditional {P : Visit → Prop} {guard : Calc.Guard} {source : String}
    {children rest : List Node} {span : Span} :
    (∀ visit ∈ visits (.conditional guard source children span :: rest), P visit) ↔
      P (.enter guard source span) ∧ ((∀ visit ∈ visits children, P visit) ∧ P .leave) ∧
        ∀ visit ∈ visits rest, P visit := by
  simp only [visits, Node.visits, List.cons_append, List.append_assoc, List.forall_mem_cons,
    List.forall_mem_append, List.nil_append, and_assoc]

def DocumentError.Valid (error : DocumentError) (map : SourceMap) : Prop :=
  ∀ span ∈ error.span?, span.Valid map

theorem DocumentError.Valid.of_span {error : DocumentError} {span : Span} {map : SourceMap}
    (hspan : error.span? = some span) (h : span.Valid map) : error.Valid map := by
  intro own hown
  rw [hspan] at hown
  cases hown
  exact h

-- What comes of reading: nodes with valid positions, or an error that has one.
def ValidResult {α : Type} (map : SourceMap) (nodesOf : α → List Node) :
    Except DocumentError α → Prop
  | .ok a => ∀ visit ∈ visits (nodesOf a), visit.Valid map
  | .error error => error.Valid map

section Visits

-- The argument of a mark is on the line of its keyword.
theorem Marker.On.newline_not_mem {marker : Marker} {line lead gap trailing : List Char}
    (hon : marker.On line lead gap trailing) (hargument : marker.argument ≠ [])
    (hline : '\n' ∉ line.dropLast) : '\n' ∉ marker.front ++ marker.argument := by
  have hwhole : line = marker.front ++ marker.argument ++ trailing := by
    rw [hon.line_eq, hon.front_eq]
  obtain ⟨init, c, hinit⟩ : ∃ init c, marker.argument = init ++ [c] :=
    ⟨_, _, (List.dropLast_concat_getLast hargument).symm⟩
  have hc : c ≠ '\n' := by
    rintro rfl
    have hblank := hon.tight '\n' (by rw [hinit, List.getLast?_concat])
    rw [isBlank_of_isLineBreak rfl] at hblank
    cases hblank
  have hfront : '\n' ∉ marker.front ++ init := by
    intro hmem
    refine hline ?_
    rw [hwhole, hinit]
    have hsplit : marker.front ++ (init ++ [c]) ++ trailing =
        (marker.front ++ init) ++ (c :: trailing) := by
      simp
    rw [hsplit, List.dropLast_append_of_ne_nil (List.cons_ne_nil _ _)]
    exact List.mem_append_left _ hmem
  rw [hinit, ← List.append_assoc]
  intro hmem
  rcases List.mem_append.mp hmem with hmem | hmem
  · exact hfront hmem
  · exact hc (List.mem_singleton.mp hmem).symm

-- A mark is refused as a whole, but for a condition that is no expression.
theorem span_of_applyMark_eq_error {text line : List Char} {source start : Nat} {marker : Marker}
    {b : Building} {error : DocumentError}
    (h : applyMark text source start line marker b = .error error) :
    error.span? = some (markSpan text source start line) ∨
      ∃ fault, Calc.parseGuard marker.argument (start + byteCount marker.front) = .error fault ∧
        error.span? = some (Span.of text source fault.range) := by
  unfold applyMark at h
  dsimp only at h
  split at h
  · split at h
    · cases h
      exact .inl rfl
    · cases h
  · split at h
    · cases h
      exact .inl rfl
    · split at h
      · rename_i fault hguard
        cases h
        exact .inr ⟨fault, hguard, rfl⟩
      · cases h
  · split at h
    · cases h
      exact .inl rfl
    · split at h
      · cases h
        exact .inl rfl
      · cases h

variable {map : SourceMap} {source : Nat} {registered : Source} {before line after : List Char}
  {marker : Marker}

section Marks

variable (hsource : map.get? source = some registered)
  (htext : registered.text.toList = before ++ line ++ after)

include hsource htext

theorem valid_spanOf : (Span.of registered.text.toList source
    ⟨byteCount before, byteCount before + byteCount line⟩).Valid map :=
  (holds_spanOf hsource ⟨before, after, htext, by simp⟩).valid

theorem valid_markSpan :
    (markSpan registered.text.toList source (byteCount before) line).Valid map := by
  obtain ⟨trailing, hline, -⟩ := exists_trimEnd isBlank line
  have hcut : registered.text.toList = before ++ trimEnd isBlank line ++ (trailing ++ after) := by
    rw [htext]
    nth_rewrite 1 [hline]
    simp
  exact valid_spanOf hsource hcut

omit hsource in
-- What stands in the argument of a mark stands in the text.
theorem holds_of_argument {lead gap trailing inside : List Char} {range : ByteRange}
    (hon : marker.On line lead gap trailing)
    (h : range.Holds (byteCount before + byteCount marker.front) marker.argument inside) :
    range.Holds 0 registered.text.toList inside := by
  have hwhole : registered.text.toList =
      (before ++ marker.front) ++ marker.argument ++ (trailing ++ after) := by
    rw [htext, hon.line_eq, hon.front_eq]
    simp
  rw [hwhole]
  refine ByteRange.Holds.within (ByteRange.Holds.behind _ ?_) _
  rwa [Nat.zero_add, byteCount_append]

-- A variable of a condition stands where its range says, on the line of the mark.
theorem holds_variable {lead gap trailing : List Char} {guard : Calc.Guard}
    (hon : marker.On line lead gap trailing) (hargument : marker.argument ≠ [])
    (hline : '\n' ∉ line.dropLast)
    (hguard : Calc.parseGuard marker.argument (byteCount before + byteCount marker.front) = .ok guard) :
    ∀ own ∈ guard.expr.variables,
      Span.Holds ⟨source, own.2,
        (markSpan registered.text.toList source (byteCount before) line).line⟩ map own.1.toList := by
  intro own hown
  obtain ⟨front, back, hsplit, hrange⟩ := Calc.holds_of_mem_variables hguard own hown
  have hplain := hon.newline_not_mem hargument hline
  have hlead : '\n' ∉ marker.front ++ front := by
    intro hmem
    refine hplain ?_
    rw [hsplit]
    rcases List.mem_append.mp hmem with hmem | hmem
    · exact List.mem_append_left _ hmem
    · simp [hmem]
  have hwhole : registered.text.toList =
      before ++ (marker.front ++ front ++ own.1.toList) ++ (back ++ trailing ++ after) := by
    rw [htext, hon.line_eq, ← hon.front_eq, hsplit]
    simp
  refine holds_of_sameLine hsource hwhole hlead ?_ ?_
  · rw [hrange]
    simp [Nat.add_assoc]
  · rw [markSpan, Span.of, htext]
    simp only [lineAt]
    rw [List.append_assoc, takeBytes_byteCount, Nat.add_comm]

end Marks

variable {segment : Segment} (hsource : map.get? source = some registered)
  (hplaced : segment.Placed registered.text.toList)

include hsource hplaced

theorem valid_of_shows {visit : Visit} (h : Shows registered.text.toList source segment visit) :
    visit.Valid map := by
  obtain ⟨before, stretch, after, htext, htakes, hline⟩ := hplaced
  cases h with
  | prose start piece =>
      obtain ⟨rfl, rfl⟩ := htakes
      exact valid_spanOf hsource htext
  | @fenced range info content block hblock =>
      rw [(show range = _ from htakes), byteCount_append] at hblock
      rw [Visit.Valid, span_of_codeBlock hblock]
      exact valid_spanOf hsource htext
  | insert path part hkeyword =>
      obtain ⟨rfl, rfl, -⟩ := htakes
      exact valid_markSpan hsource htext
  | startIf hkeyword hargument hguard =>
      obtain ⟨rfl, rfl, hmarker⟩ := htakes
      obtain ⟨lead, gap, trailing, hon⟩ := marker?_on hmarker
      exact ⟨valid_markSpan hsource htext,
        holds_variable hsource htext hon hargument (hline _ _ _ rfl) hguard⟩
  | endIf hkeyword => trivial

theorem valid_of_applySegment_eq_error {b : Building} {error : DocumentError}
    (h : applySegment registered.text.toList source b segment = .error error) : error.Valid map := by
  obtain ⟨before, stretch, after, htext, htakes, hline⟩ := hplaced
  cases segment with
  | prose start piece => cases h
  | fenced range info content =>
      rw [(show range = _ from htakes), byteCount_append, applySegment] at h
      unfold codeBlock at h
      dsimp only at h
      split at h
      · cases h
        exact .of_span rfl (valid_spanOf hsource htext)
      · cases h
  | mark start line marker =>
      obtain ⟨rfl, rfl, hmarker⟩ := htakes
      rcases span_of_applyMark_eq_error h with hspan | ⟨fault, hguard, hspan⟩
      · exact .of_span hspan (valid_markSpan hsource htext)
      · obtain ⟨lead, gap, trailing, hon⟩ := marker?_on hmarker
        obtain ⟨inside, hinside⟩ := Calc.holds_of_parseGuard_eq_error hguard
        exact .of_span hspan (holds_spanOf hsource (holds_of_argument htext hon hinside)).valid

end Visits

section Windows

variable {map : SourceMap} {source : Nat} {registered : Source} {ss : List Segment}

theorem valid_of_forall_shows {vs : List Visit} (hsource : map.get? source = some registered)
    (h : List.Forall₂ (Shows registered.text.toList source) ss vs)
    (hplaced : ∀ segment ∈ ss, segment.Placed registered.text.toList) :
    ∀ visit ∈ vs, visit.Valid map := by
  induction h with
  | nil => exact fun _ hmem => nomatch hmem
  | cons hshows _ ih =>
      obtain ⟨hfirst, hmore⟩ := List.forall_mem_cons.mp hplaced
      exact List.forall_mem_cons.mpr ⟨valid_of_shows hsource hfirst hshows, ih hmore⟩

theorem valid_of_foldlM_eq_error {b : Building} {error : DocumentError}
    (hsource : map.get? source = some registered)
    (hplaced : ∀ segment ∈ ss, segment.Placed registered.text.toList)
    (h : ss.foldlM (applySegment registered.text.toList source) b = .error error) :
    error.Valid map := by
  induction ss generalizing b with
  | nil => cases h
  | cons segment rest ih =>
      obtain ⟨hfirst, hmore⟩ := List.forall_mem_cons.mp hplaced
      rw [List.foldlM_cons] at h
      cases hstep : applySegment registered.text.toList source b segment with
      | error other =>
          rw [hstep] at h
          cases h
          exact valid_of_applySegment_eq_error hsource hfirst hstep
      | ok next =>
          rw [hstep] at h
          exact ih hmore h

-- A condition that is left open is reported where it was opened.
theorem valid_of_buildNodes_eq_error {error : DocumentError}
    (hsource : map.get? source = some registered)
    (hplaced : ∀ segment ∈ ss, segment.Placed registered.text.toList)
    (h : buildNodes registered.text.toList source ss = .error error) : error.Valid map := by
  unfold buildNodes at h
  cases hfold : ss.foldlM (applySegment registered.text.toList source) ⟨[], []⟩ with
  | error other =>
      rw [hfold] at h
      cases h
      exact valid_of_foldlM_eq_error hsource hplaced hfold
  | ok b =>
      obtain ⟨vs, hshows, hvisits⟩ := visits_foldlM hfold
      rw [hfold] at h
      simp only [bind, Except.bind] at h
      split at h
      · cases h
      · rename_i top more hopened
        cases h
        have hmem : Visit.enter top.guard top.source top.span ∈ b.visits := by
          simp [Building.visits, OpenIf.visits, hopened]
        have hvs : b.visits = vs := hvisits
        rw [hvs] at hmem
        exact .of_span rfl (valid_of_forall_shows hsource hshows hplaced _ hmem).1

-- All positions that come of reading a window of a registered text are positions of that text.
theorem valid_parseWindow {window : ByteRange} (hsource : map.get? source = some registered)
    (hwindow : window.Windows registered.text.toList) :
    ValidResult map Document.nodes (parseWindow registered.text.toList source window) := by
  have hplaced := placed_segments hwindow
  cases hparse : parseWindow registered.text.toList source window with
  | ok document => exact valid_of_forall_shows hsource (shows_parseWindow hparse) hplaced
  | error error =>
      unfold parseWindow at hparse
      cases hnodes : buildNodes registered.text.toList source
          (segments registered.text.toList window) with
      | ok nodes =>
          rw [hnodes] at hparse
          cases hparse
      | error other =>
          rw [hnodes] at hparse
          cases hparse
          exact valid_of_buildNodes_eq_error hsource hplaced hnodes

theorem valid_parseDocument (hsource : map.get? source = some registered) :
    ValidResult map Document.nodes (parseDocument registered.text.toList source) :=
  valid_parseWindow hsource (windows_whole _)

end Windows

section Later

variable {map next : SourceMap}

-- Texts that are registered later change no position.
theorem Visit.Valid.later {visit : Visit} (h : visit.Valid map)
    (hnext : map.sources <+: next.sources) : visit.Valid next := by
  cases visit with
  | prose | directive | code => exact Span.Valid.later h hnext
  | enter => exact ⟨Span.Valid.later h.1 hnext, fun own hown => Span.Holds.later (h.2 own hown) hnext⟩
  | leave => trivial

end Later

end LiveDoc
