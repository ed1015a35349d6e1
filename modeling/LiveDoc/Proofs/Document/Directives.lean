import LiveDoc.Proofs.Document.Visits

namespace LiveDoc

section Problems

variable {text : List Char} {source : Nat} {b : Building} {e : DocumentError}

-- A parser refuses a text only for what is wrong with its marks and tags.
theorem malformed_of_applySegment {segment : Segment}
    (h : applySegment text source b segment = .error e) :
    ∃ problem span, e = .malformed problem span := by
  cases segment with
  | prose start piece => cases h
  | mark start line marker =>
      simp only [applySegment, applyMark] at h
      repeat' split at h
      all_goals
        cases h
        try exact ⟨_, _, rfl⟩
  | fenced range info content =>
      simp only [applySegment, codeBlock] at h
      split at h
      · cases h
        exact ⟨_, _, rfl⟩
      · cases h

theorem malformed_of_foldlM {segments : List Segment}
    (h : segments.foldlM (applySegment text source) b = .error e) :
    ∃ problem span, e = .malformed problem span := by
  induction segments generalizing b with
  | nil => cases h
  | cons segment rest ih =>
      rw [List.foldlM_cons] at h
      cases hstep : applySegment text source b segment with
      | error e' =>
          rw [hstep] at h
          cases h
          exact malformed_of_applySegment hstep
      | ok next =>
          rw [hstep] at h
          exact ih h

theorem malformed_of_parseWindow {window : ByteRange}
    (h : parseWindow text source window = .error e) :
    ∃ problem span, e = .malformed problem span := by
  unfold parseWindow buildNodes at h
  cases hfold : (segments text window).foldlM (applySegment text source) ⟨[], []⟩ with
  | error e' =>
      rw [hfold] at h
      cases h
      exact malformed_of_foldlM hfold
  | ok b =>
      rw [hfold] at h
      simp only [bind, Except.bind] at h
      split at h
      · cases h
      · cases h
        exact ⟨_, _, rfl⟩

end Problems

-- The part of a file that an `!include` asks for.
def Segment.part? : Segment → Option (Option String)
  | .mark _ _ marker =>
      match includeTarget marker.argument with
      | .ok (_, part) => some (part.map String.ofList)
      | .error _ => none
  | _ => none

section Parts

variable {text : List Char} {source : Nat} {b next : Building} {directive : Include}

-- A directive of a tree has its part from one of the segments.
theorem part_of_applySegment {segment : Segment}
    (h : applySegment text source b segment = .ok next)
    (hmem : .directive directive ∈ next.visits) :
    .directive directive ∈ b.visits ∨ segment.part? = some directive.part := by
  obtain ⟨visit, hshows, hvisits⟩ := visits_applySegment h
  rw [hvisits, List.mem_append, List.mem_singleton] at hmem
  refine hmem.imp id fun hvisit => ?_
  subst hvisit
  cases hshows with
  | @insert start line marker path part hkeyword =>
      simp only [applySegment, applyMark, hkeyword] at h
      simp only [Segment.part?]
      split at h
      · cases h
      · rename_i own ownPart htarget
        cases h
        rw [htarget]
        rw [visits_push] at hvisits
        have hsame := List.append_cancel_left hvisits
        simp only [Node.visits, List.cons.injEq, Visit.directive.injEq, Include.mk.injEq] at hsame
        exact congrArg some hsame.1.2.1

theorem part_of_foldlM {segments : List Segment}
    (h : segments.foldlM (applySegment text source) b = .ok next)
    (hmem : .directive directive ∈ next.visits) :
    .directive directive ∈ b.visits ∨
      ∃ segment ∈ segments, segment.part? = some directive.part := by
  induction segments generalizing b with
  | nil =>
      cases h
      exact .inl hmem
  | cons segment rest ih =>
      rw [List.foldlM_cons] at h
      cases hstep : applySegment text source b segment with
      | error e =>
          rw [hstep] at h
          cases h
      | ok middle =>
          rw [hstep] at h
          rcases ih h with hmiddle | ⟨later, hlater, hpart⟩
          · rcases part_of_applySegment hstep hmiddle with hb | hpart
            · exact .inl hb
            · exact .inr ⟨segment, List.mem_cons_self .., hpart⟩
          · exact .inr ⟨later, List.mem_cons_of_mem _ hlater, hpart⟩

theorem part_of_parseWindow {window : ByteRange} {document : Document}
    (h : parseWindow text source window = .ok document)
    (hmem : .directive directive ∈ visits document.nodes) :
    ∃ segment ∈ segments text window, segment.part? = some directive.part := by
  unfold parseWindow buildNodes at h
  cases hfold : (segments text window).foldlM (applySegment text source) ⟨[], []⟩ with
  | error e =>
      rw [hfold] at h
      cases h
  | ok b =>
      rw [hfold] at h
      simp only [bind, Except.bind] at h
      split at h
      · rename_i hopened
        cases h
        have hvisits : b.visits = visits b.nodes.reverse := by simp [Building.visits, hopened]
        rcases part_of_foldlM hfold (by rwa [hvisits]) with hnone | hsegment
        · cases hnone
        · exact hsegment
      · cases h

end Parts

end LiveDoc
