import LiveDoc.Proofs.Document.Gaps
import Mathlib

namespace LiveDoc

open Text

def Segment.keyword? : Segment → Option Keyword
  | .mark _ _ marker => some marker.keyword
  | _ => none

def Segment.WellFormed (text : List Char) (source : Nat) (segment : Segment) : Prop :=
  ∃ visit, segment.reading text source = .ok visit

def ifCount (ss : List Segment) : Nat := ss.countP fun s => s.keyword? == some .startIf

def endifCount (ss : List Segment) : Nat := ss.countP fun s => s.keyword? == some .endIf

-- No end comes before the condition that it ends.
def NoStrayEnd (ss : List Segment) : Prop := ∀ front, front <+: ss → endifCount front ≤ ifCount front

structure Balanced (ss : List Segment) : Prop where
  noStrayEnd : NoStrayEnd ss
  counts : endifCount ss = ifCount ss

section Counts

variable {front back ss : List Segment} {s t : Segment}

@[simp] theorem ifCount_nil : ifCount [] = 0 := rfl

@[simp] theorem endifCount_nil : endifCount [] = 0 := rfl

@[simp] theorem ifCount_append (front back : List Segment) :
    ifCount (front ++ back) = ifCount front + ifCount back := List.countP_append

@[simp] theorem endifCount_append (front back : List Segment) :
    endifCount (front ++ back) = endifCount front + endifCount back := List.countP_append

@[simp] theorem ifCount_cons (s : Segment) (ss : List Segment) :
    ifCount (s :: ss) = ifCount ss + if s.keyword? = some .startIf then 1 else 0 := by
  simp [ifCount, List.countP_cons]

@[simp] theorem endifCount_cons (s : Segment) (ss : List Segment) :
    endifCount (s :: ss) = endifCount ss + if s.keyword? = some .endIf then 1 else 0 := by
  simp [endifCount, List.countP_cons]

theorem NoStrayEnd.le (h : NoStrayEnd ss) : endifCount ss ≤ ifCount ss := h ss (List.prefix_refl ss)

theorem NoStrayEnd.of_front (h : NoStrayEnd ss) (hpart : front <+: ss) : NoStrayEnd front :=
  fun own hown => h own (hown.trans hpart)

theorem NoStrayEnd.nil : NoStrayEnd [] := fun front hfront => by rw [List.prefix_nil.mp hfront]; rfl

theorem NoStrayEnd.concat (h : NoStrayEnd ss) (hlast : endifCount (ss ++ [s]) ≤ ifCount (ss ++ [s])) :
    NoStrayEnd (ss ++ [s]) := by
  intro front hfront
  rcases List.prefix_concat_iff.mp hfront with rfl | hfront
  · exact hlast
  · exact h front hfront

theorem prefix_append_cases {own : List Segment} (h : own <+: front ++ back) :
    own <+: front ∨ ∃ more, own = front ++ more ∧ more <+: back := by
  rcases List.prefix_or_prefix_of_prefix h (List.prefix_append front back) with h' | ⟨more, rfl⟩
  · exact .inl h'
  · exact .inr ⟨more, rfl, (List.prefix_append_right_inj front).mp h⟩

-- A balanced run changes nothing for what is behind it.
theorem NoStrayEnd.append (h : NoStrayEnd front) (hback : Balanced back) : NoStrayEnd (front ++ back) := by
  intro own hown
  rcases prefix_append_cases hown with hown | ⟨more, rfl, hmore⟩
  · exact h own hown
  · have hfront := h.le
    have hpart := hback.noStrayEnd more hmore
    simp only [ifCount_append, endifCount_append]
    omega

theorem Balanced.nil : Balanced [] := ⟨NoStrayEnd.nil, rfl⟩

theorem Balanced.append (h : Balanced front) (hback : Balanced back) : Balanced (front ++ back) where
  noStrayEnd := h.noStrayEnd.append hback
  counts := by
    have hfront := h.counts
    have hpart := hback.counts
    simp only [ifCount_append, endifCount_append]
    omega

theorem Balanced.singleton (hif : s.keyword? ≠ some .startIf) (hend : s.keyword? ≠ some .endIf) :
    Balanced [s] := by
  have hcounts : endifCount [s] = ifCount [s] := by simp [hif, hend]
  exact ⟨NoStrayEnd.nil.concat (Nat.le_of_eq hcounts), hcounts⟩

-- A balanced run between a condition and its end.
theorem Balanced.wrap (h : Balanced ss) (hs : s.keyword? = some .startIf)
    (ht : t.keyword? = some .endIf) : Balanced (s :: (ss ++ [t])) := by
  have hcounts := h.counts
  have hopened : NoStrayEnd [s] := NoStrayEnd.nil.concat (by simp [hs])
  refine ⟨(hopened.append h).concat ?_, ?_⟩ <;>
  · simp [hs, ht]
    omega

-- A condition that only balanced runs follow is still open.
theorem Balanced.not_open (h : Balanced (front ++ s :: back)) (hs : s.keyword? = some .startIf)
    (hback : Balanced back) : False := by
  have hfront := h.noStrayEnd front (List.prefix_append ..)
  have hall := h.counts
  have hpart := hback.counts
  simp [hs] at hall
  omega

-- So only one condition is the innermost one.
theorem eq_of_open {front' back' : List Segment} (h : front ++ s :: back = front' ++ t :: back')
    (hs : s.keyword? = some .startIf) (ht : t.keyword? = some .startIf) (hback : Balanced back)
    (hback' : Balanced back') : s = t := by
  rcases List.append_eq_append_iff.mp h with ⟨more, -, hmore⟩ | ⟨more, -, hmore⟩ <;>
    cases more with
    | nil => cases hmore; rfl
    | cons first more =>
        cases hmore
        first
          | exact (hback.not_open ht hback').elim
          | exact (hback'.not_open hs hback).elim

end Counts

-- Which conditions are open behind segments: each has a mark, and what stands between two of
-- the marks and behind the last one is balanced.
inductive Stacked (text : List Char) (source : Nat) : List OpenIf → List Segment → Prop
  | nil {ss : List Segment} : Balanced ss → Stacked text source [] ss
  | cons {top : OpenIf} {rest : List OpenIf} {front back : List Segment} {s : Segment} :
      Stacked text source rest front → s.keyword? = some .startIf →
      top.span = s.span text source → Balanced back →
      Stacked text source (top :: rest) (front ++ s :: back)

section Stacks

variable {text : List Char} {source : Nat} {opened : List OpenIf} {ss done back : List Segment}
  {segment : Segment} {visit : Visit} {b next : Building} {e : DocumentError}

theorem Stacked.append (h : Stacked text source opened ss) (hback : Balanced back) :
    Stacked text source opened (ss ++ back) := by
  cases h with
  | nil hss => exact .nil (hss.append hback)
  | cons hrest hs hspan hlast =>
      rw [List.append_assoc, List.cons_append]
      exact .cons hrest hs hspan (hlast.append hback)

theorem Stacked.noStrayEnd (h : Stacked text source opened ss) : NoStrayEnd ss := by
  induction h with
  | nil hss => exact hss.noStrayEnd
  | @cons top rest front back s _ hs _ hback ih =>
      rw [List.append_cons]
      refine (ih.concat ?_).append hback
      have := ih.le
      simp [hs]
      omega

theorem Stacked.length (h : Stacked text source opened ss) :
    opened.length + endifCount ss = ifCount ss := by
  induction h with
  | nil hss => simpa using hss.counts
  | cons _ hs _ hback ih =>
      have := hback.counts
      simp [hs]
      omega

-- What a segment says is of its own kind.
theorem keyword?_of_reading (h : segment.reading text source = .ok visit) :
    (segment.keyword? = some .startIf ∧
      ∃ guard words, visit = .enter guard words (segment.span text source)) ∨
    (segment.keyword? = some .endIf ∧ visit = .leave) ∨
    (segment.keyword? ≠ some .startIf ∧ segment.keyword? ≠ some .endIf ∧
      ∀ b span, ∃ node, Building.take b span visit = .ok (b.push node)) := by
  cases segment with
  | prose start piece =>
      cases h
      exact .inr (.inr ⟨by simp [Segment.keyword?], by simp [Segment.keyword?], fun b span => ⟨_, rfl⟩⟩)
  | fenced range info content =>
      simp only [Segment.reading] at h
      cases hblock : codeBlock text source range info content with
      | error e =>
          rw [hblock] at h
          cases h
      | ok block =>
          rw [hblock] at h
          cases h
          exact .inr (.inr ⟨by simp [Segment.keyword?], by simp [Segment.keyword?], fun b span => ⟨_, rfl⟩⟩)
  | mark start line marker =>
      simp only [Segment.reading, Marker.reading] at h
      simp only [Segment.keyword?, Option.some.injEq]
      split at h
      · rename_i hkeyword
        split at h
        · cases h
        · cases h
          exact .inr (.inr ⟨by simp [hkeyword], by simp [hkeyword], fun b span => ⟨_, rfl⟩⟩)
      · rename_i hkeyword
        split at h
        · cases h
        · split at h
          · cases h
          · cases h
            exact .inl ⟨hkeyword, _, _, rfl⟩
      · rename_i hkeyword
        split at h
        · cases h
        · cases h
          exact .inr (.inl ⟨hkeyword, rfl⟩)

-- The invariant of one step.
theorem Stacked.step (h : Stacked text source b.opened done)
    (hstep : applySegment text source b segment = .ok next) :
    Stacked text source next.opened (done ++ [segment]) := by
  obtain ⟨visit, hreading, htake⟩ := exists_reading_of_applySegment hstep
  rcases keyword?_of_reading hreading with ⟨hif, guard, words, rfl⟩ | ⟨hend, rfl⟩ | ⟨hif, hend, hpush⟩
  · cases htake
    exact .cons h hif rfl Balanced.nil
  · simp only [Building.take] at htake
    split at htake
    · cases htake
    · rename_i top rest hopened
      cases htake
      rw [hopened] at h
      cases h with
      | cons hrest hs _ hback =>
          rw [List.append_assoc, List.cons_append]
          exact hrest.append (hback.wrap hs hend)
  · obtain ⟨node, hnode⟩ := hpush b (segment.span text source)
    rw [hnode] at htake
    cases htake
    exact h.append (Balanced.singleton hif hend)

theorem Stacked.run (h : Stacked text source b.opened done)
    (hrun : ss.foldlM (applySegment text source) b = .ok next) :
    Stacked text source next.opened (done ++ ss) := by
  induction ss generalizing b done with
  | nil =>
      cases hrun
      rwa [List.append_nil]
  | cons segment rest ih =>
      rw [List.foldlM_cons] at hrun
      cases hstep : applySegment text source b segment with
      | error e =>
          rw [hstep] at hrun
          cases hrun
      | ok middle =>
          rw [hstep] at hrun
          rw [List.append_cons]
          exact ih (h.step hstep) hrun

-- A step fails only for a segment that says nothing, or for an end where no condition is open.
theorem Stacked.progress (h : Stacked text source b.opened done)
    (hreading : segment.reading text source = .ok visit) (hstray : NoStrayEnd (done ++ [segment])) :
    ∃ next, applySegment text source b segment = .ok next := by
  rw [applySegment_eq_reading, hreading]
  change ∃ next, b.take _ visit = .ok next
  rcases keyword?_of_reading hreading with ⟨hif, guard, words, rfl⟩ | ⟨hend, rfl⟩ | ⟨hif, hend, hpush⟩
  · exact ⟨_, rfl⟩
  · have hle := hstray.le
    have hlength := h.length
    simp [hend] at hle
    simp only [Building.take]
    split
    · rename_i hopened
      rw [hopened, List.length_nil] at hlength
      omega
    · exact ⟨_, rfl⟩
  · obtain ⟨node, hnode⟩ := hpush b (segment.span text source)
    exact ⟨_, hnode⟩

theorem Stacked.run_of_noStrayEnd (h : Stacked text source b.opened done)
    (hformed : ∀ s ∈ ss, s.WellFormed text source) (hstray : NoStrayEnd (done ++ ss)) :
    ∃ next, ss.foldlM (applySegment text source) b = .ok next := by
  induction ss generalizing b done with
  | nil => exact ⟨b, rfl⟩
  | cons segment rest ih =>
      obtain ⟨⟨visit, hreading⟩, hrest⟩ := List.forall_mem_cons.mp hformed
      rw [List.append_cons] at hstray
      obtain ⟨middle, hstep⟩ := h.progress hreading (hstray.of_front (List.prefix_append ..))
      rw [List.foldlM_cons, hstep]
      exact ih (h.step hstep) hrest hstray

end Stacks

-- Why segments are refused, and where: the first that cannot be read or that ends a condition where
-- none is open, and else the innermost condition that is left open.
inductive Refused (text : List Char) (source : Nat) (ss : List Segment) : DocumentError → Prop
  | malformed {front back : List Segment} {s : Segment} {error : DocumentError} :
      ss = front ++ s :: back → (∀ own ∈ front, own.WellFormed text source) → NoStrayEnd front →
      s.reading text source = .error error → Refused text source ss error
  | unmatched {front back : List Segment} {s : Segment} :
      ss = front ++ s :: back → (∀ own ∈ front, own.WellFormed text source) → Balanced front →
      s.WellFormed text source → s.keyword? = some .endIf →
      Refused text source ss (.malformed .endifWithoutIf (s.span text source))
  | unclosed {front back : List Segment} {s : Segment} :
      ss = front ++ s :: back → (∀ own ∈ ss, own.WellFormed text source) → NoStrayEnd ss →
      s.keyword? = some .startIf → Balanced back →
      Refused text source ss (.malformed .ifWithoutEndif (s.span text source))

section Builds

variable {text : List Char} {source : Nat} {ss : List Segment} {b next : Building}
  {e : DocumentError}

theorem wellFormed_of_foldlM (h : ss.foldlM (applySegment text source) b = .ok next) :
    ∀ s ∈ ss, s.WellFormed text source := by
  induction ss generalizing b with
  | nil => exact List.forall_mem_nil _
  | cons segment rest ih =>
      rw [List.foldlM_cons] at h
      cases hstep : applySegment text source b segment with
      | error e =>
          rw [hstep] at h
          cases h
      | ok middle =>
          rw [hstep] at h
          obtain ⟨visit, hreading, -⟩ := exists_reading_of_applySegment hstep
          exact List.forall_mem_cons.mpr ⟨⟨visit, hreading⟩, ih h⟩

-- A run fails at one of its steps.
theorem exists_step_of_foldlM_eq_error (h : ss.foldlM (applySegment text source) b = .error e) :
    ∃ front s back middle, ss = front ++ s :: back ∧
      front.foldlM (applySegment text source) b = .ok middle ∧
      applySegment text source middle s = .error e := by
  induction ss generalizing b with
  | nil => cases h
  | cons segment rest ih =>
      rw [List.foldlM_cons] at h
      cases hstep : applySegment text source b segment with
      | error other =>
          rw [hstep] at h
          cases h
          exact ⟨[], segment, rest, b, rfl, rfl, hstep⟩
      | ok next =>
          rw [hstep] at h
          obtain ⟨front, s, back, middle, rfl, hfront, hs⟩ := ih h
          refine ⟨segment :: front, s, back, middle, rfl, ?_, hs⟩
          rw [List.foldlM_cons, hstep]
          exact hfront

theorem stacked_nil : Stacked text source (Building.mk [] []).opened [] := .nil Balanced.nil

theorem stacked_of_foldlM (h : ss.foldlM (applySegment text source) ⟨[], []⟩ = .ok next) :
    Stacked text source next.opened ss := stacked_nil.run h

theorem foldlM_of_noStrayEnd (hformed : ∀ s ∈ ss, s.WellFormed text source) (hstray : NoStrayEnd ss) :
    ∃ next, ss.foldlM (applySegment text source) ⟨[], []⟩ = .ok next :=
  stacked_nil.run_of_noStrayEnd hformed hstray

theorem buildNodes_of_error {front back : List Segment} {s : Segment}
    (h : front.foldlM (applySegment text source) ⟨[], []⟩ = .ok next)
    (hs : applySegment text source next s = .error e) :
    buildNodes text source (front ++ s :: back) = .error e := by
  rw [buildNodes, List.foldlM_append, h]
  change ((applySegment text source next s >>= _) >>= _) = _
  rw [hs]
  rfl

theorem refused_of_buildNodes (h : buildNodes text source ss = .error e) :
    Refused text source ss e := by
  cases hrun : ss.foldlM (applySegment text source) ⟨[], []⟩ with
  | ok next =>
      have hstacked := stacked_of_foldlM hrun
      rw [buildNodes_of_foldlM hrun] at h
      split at h
      · cases h
      · rename_i top rest hopened
        cases h
        rw [hopened] at hstacked
        have hstray := hstacked.noStrayEnd
        cases hstacked with
        | cons _ hs hspan hback =>
            rw [hspan]
            exact .unclosed rfl (wellFormed_of_foldlM hrun) hstray hs hback
  | error other =>
      rw [buildNodes, hrun] at h
      cases h
      obtain ⟨front, s, back, middle, hsplit, hfront, hs⟩ := exists_step_of_foldlM_eq_error hrun
      have hformed := wellFormed_of_foldlM hfront
      have hstacked := stacked_of_foldlM hfront
      rw [applySegment_eq_reading] at hs
      cases hreading : s.reading text source with
      | error error =>
          rw [hreading] at hs
          cases hs
          exact .malformed hsplit hformed hstacked.noStrayEnd hreading
      | ok visit =>
          rw [hreading] at hs
          change middle.take _ visit = _ at hs
          rcases keyword?_of_reading hreading with ⟨-, guard, words, rfl⟩ | ⟨hend, rfl⟩ | ⟨-, -, hpush⟩
          · cases hs
          · simp only [Building.take] at hs
            split at hs
            · rename_i hopened
              cases hs
              rw [hopened] at hstacked
              cases hstacked with
              | nil hbalanced => exact .unmatched hsplit hformed hbalanced ⟨_, hreading⟩ hend
            · cases hs
          · obtain ⟨node, hnode⟩ := hpush middle (s.span text source)
            rw [hnode] at hs
            cases hs

theorem buildNodes_of_refused (h : Refused text source ss e) : buildNodes text source ss = .error e := by
  cases h with
  | malformed hsplit hformed hstray hreading =>
      obtain ⟨next, hrun⟩ := foldlM_of_noStrayEnd hformed hstray
      rw [hsplit]
      refine buildNodes_of_error hrun ?_
      rw [applySegment_eq_reading, hreading]
      rfl
  | @unmatched front back s hsplit hformed hbalanced hs hend =>
      obtain ⟨next, hrun⟩ := foldlM_of_noStrayEnd hformed hbalanced.noStrayEnd
      have hlength := (stacked_of_foldlM hrun).length
      have hopened : next.opened = [] := by
        have := hbalanced.counts
        exact List.eq_nil_of_length_eq_zero (by omega)
      obtain ⟨visit, hreading⟩ := hs
      rw [hsplit]
      refine buildNodes_of_error hrun ?_
      rw [applySegment_eq_reading, hreading]
      change next.take _ visit = _
      rcases keyword?_of_reading hreading with ⟨hif, -⟩ | ⟨-, rfl⟩ | ⟨-, hne, -⟩
      · rw [hend] at hif
        cases hif
      · rw [Building.take, hopened]
      · exact (hne hend).elim
  | @unclosed front back s hsplit hformed hstray hs hback =>
      obtain ⟨next, hrun⟩ := foldlM_of_noStrayEnd hformed hstray
      have hstacked := stacked_of_foldlM hrun
      rw [buildNodes_of_foldlM hrun]
      cases hopened : next.opened with
      | nil =>
          rw [hopened, hsplit] at hstacked
          cases hstacked with
          | nil hbalanced => exact (hbalanced.not_open hs hback).elim
      | cons top rest =>
          rw [hopened] at hstacked
          generalize hall : ss = all at hstacked
          cases hstacked with
          | cons _ hs' hspan hback' =>
              dsimp only
              rw [hspan, eq_of_open (hall.symm.trans hsplit) hs' hs hback' hback]

theorem buildNodes_eq_error_iff : buildNodes text source ss = .error e ↔ Refused text source ss e :=
  ⟨refused_of_buildNodes, buildNodes_of_refused⟩

-- Readable segments are built into a tree exactly if they are balanced.
theorem exists_buildNodes_iff (hformed : ∀ s ∈ ss, s.WellFormed text source) :
    (∃ nodes, buildNodes text source ss = .ok nodes) ↔ Balanced ss := by
  constructor
  · rintro ⟨nodes, hnodes⟩
    cases hrun : ss.foldlM (applySegment text source) ⟨[], []⟩ with
    | error other =>
        rw [buildNodes, hrun] at hnodes
        cases hnodes
    | ok next =>
        have hstacked := stacked_of_foldlM hrun
        rw [buildNodes_of_foldlM hrun] at hnodes
        split at hnodes
        · rename_i hopened
          rw [hopened] at hstacked
          cases hstacked with
          | nil hbalanced => exact hbalanced
        · cases hnodes
  · intro hbalanced
    obtain ⟨next, hrun⟩ := foldlM_of_noStrayEnd hformed hbalanced.noStrayEnd
    have hlength := (stacked_of_foldlM hrun).length
    have hopened : next.opened = [] := by
      have := hbalanced.counts
      exact List.eq_nil_of_length_eq_zero (by omega)
    refine ⟨next.nodes.reverse, ?_⟩
    rw [buildNodes_of_foldlM hrun, hopened]

end Builds

section Walks

variable {text : List Char} {source : Nat} {ss : List Segment} {b next : Building}
  {nodes : List Node}

theorem foldlM_cons_of_reading {segment : Segment} {rest : List Segment} {visit : Visit}
    (hreading : segment.reading text source = .ok visit)
    (htake : b.take (segment.span text source) visit = .ok next) :
    (segment :: rest).foldlM (applySegment text source) b =
      rest.foldlM (applySegment text source) next := by
  rw [List.foldlM_cons, applySegment_eq_reading, hreading]
  change (b.take _ visit >>= _) = _
  rw [htake]
  rfl

-- Segments that say what a walk over nodes meets are built into these nodes. The induction is on the
-- nodes; the children of a condition are built behind its mark.
theorem foldlM_of_readings
    (h : ss.map (Segment.reading text source) = (visits nodes).map .ok) (b : Building) :
    ss.foldlM (applySegment text source) b = .ok ⟨b.opened, nodes.reverse ++ b.nodes⟩ := by
  induction nodes using nodesInduction generalizing ss b with
  | nil =>
      cases List.map_eq_nil_iff.mp h
      rfl
  | prose own rest ih | directive own rest ih | code own rest ih =>
      obtain ⟨segment, more, rfl, hreading, hmore⟩ := List.map_eq_cons_iff.mp h
      rw [foldlM_cons_of_reading hreading rfl, ih hmore]
      simp [Building.push]
  | conditional guard words children span rest ihChildren ih =>
      simp only [visits, Node.visits, List.cons_append, List.append_assoc, List.map_cons,
        List.map_append, List.nil_append] at h
      obtain ⟨first, more, rfl, hfirst, hmore⟩ := List.map_eq_cons_iff.mp h
      obtain ⟨inner, behind, rfl, hinner, hbehind⟩ := List.map_eq_append_iff.mp hmore
      obtain ⟨last, others, rfl, hlast, hothers⟩ := List.map_eq_cons_iff.mp hbehind
      rw [foldlM_cons_of_reading hfirst rfl, List.foldlM_append, ihChildren hinner]
      change (last :: others).foldlM (applySegment text source) _ = _
      rw [foldlM_cons_of_reading hlast rfl, ih hothers]
      simp

-- A tree is built from segments exactly if the walk over it meets what they say, one after the other.
theorem buildNodes_eq_ok_iff : buildNodes text source ss = .ok nodes ↔
    ss.map (Segment.reading text source) = (visits nodes).map .ok := by
  refine ⟨readings_of_buildNodes, fun h => ?_⟩
  rw [buildNodes_of_foldlM (foldlM_of_readings h ⟨[], []⟩)]
  simp

end Walks

-- How segments stand for a window: in the order of the text, the marks being the marker lines outside
-- code, each with what is written on it, and the fences the fenced code.
structure InOrder (text : List Char) (window : ByteRange) (ss : List Segment) : Prop where
  ordered : ss.Pairwise fun a b => a.start < b.start
  marked : ∀ before line, IsLine text window (codeRegions text window) before line →
    (IsMarkerLine text window before line ↔ ∃ marker, .mark (byteCount before) line marker ∈ ss)
  marks : ∀ position line marker, .mark position line marker ∈ ss ↔
    ∃ before, position = byteCount before ∧ IsMarkerLine text window before line ∧
      ∃ lead gap trailing, marker.On line lead gap trailing
  fences : ∀ range info content, .fenced range info content ∈ ss ↔
    .fenced range info content ∈ regions text window

section Marks

variable {text before line : List Char} {window : ByteRange} {position : Nat} {marker : Marker}
  (hwindow : window.Windows text)

include hwindow

theorem mark_mem_segments_iff_on :
    .mark position line marker ∈ segments text window ↔
      ∃ before, position = byteCount before ∧ IsMarkerLine text window before line ∧
        ∃ lead gap trailing, marker.On line lead gap trailing := by
  rw [mark_mem_segments_iff hwindow]
  refine exists_congr fun before => and_congr_right fun _ => ?_
  constructor
  · rintro ⟨hline, hstart, hmarker⟩
    have hmarked : IsMarked line := isSome_marker?_iff.mp (by rw [hmarker]; rfl)
    exact ⟨⟨hline, hstart, hmarked⟩, marker?_eq_some_iff.mp hmarker⟩
  · rintro ⟨⟨hline, hstart, -⟩, hon⟩
    exact ⟨hline, hstart, marker?_eq_some_iff.mpr hon⟩

theorem isMarkerLine_iff_mark_mem (hline : IsLine text window (codeRegions text window) before line) :
    IsMarkerLine text window before line ↔
      ∃ marker, .mark (byteCount before) line marker ∈ segments text window := by
  simp only [mark_mem_segments_iff_on hwindow]
  constructor
  · intro h
    obtain ⟨marker, hmarker⟩ := Option.isSome_iff_exists.mp (isSome_marker?_iff.mpr h.2.2)
    exact ⟨marker, before, rfl, h, marker?_on hmarker⟩
  · rintro ⟨marker, own, hposition, hown, -⟩
    have hsame : before = own := eq_of_byteCount_eq
      ((List.prefix_append before line).trans hline.ofText)
      ((List.prefix_append own line).trans hown.1.ofText) hposition
    exact hsame ▸ hown

theorem inOrder_segments : InOrder text window (segments text window) where
  ordered := starts_segments hwindow
  marked := fun _ _ hline => isMarkerLine_iff_mark_mem hwindow hline
  marks := fun _ _ _ => mark_mem_segments_iff_on hwindow
  fences := fun _ _ _ => fenced_mem_segments_iff

end Marks

def documentSegments (text : List Char) : List Segment := segments text ⟨0, byteCount text⟩

theorem parseDocument_eq (text : List Char) (source : Nat) :
    parseDocument text source =
      (buildNodes text source (documentSegments text)).map fun nodes => ⟨source, nodes⟩ := rfl

-- The marks of a text nest as brackets do, and the walk over its tree meets what its segments say. A
-- text is refused for the first mark or fence that cannot be read or ends nothing, and else for the
-- innermost condition that is left open.
theorem conditions_nest_as_brackets (text : List Char) (source : Nat) :
    InOrder text ⟨0, byteCount text⟩ (documentSegments text) ∧
      (∀ nodes, parseDocument text source = .ok ⟨source, nodes⟩ ↔
        (documentSegments text).map (Segment.reading text source) = (visits nodes).map .ok) ∧
      ((∀ s ∈ documentSegments text, s.WellFormed text source) →
        ((∃ document, parseDocument text source = .ok document) ↔
          Balanced (documentSegments text))) ∧
      ∀ error, parseDocument text source = .error error ↔
        Refused text source (documentSegments text) error := by
  rw [parseDocument_eq]
  refine ⟨inOrder_segments (windows_whole text), fun nodes => ?_, fun hformed => ?_, fun error => ?_⟩
  · rw [← buildNodes_eq_ok_iff]
    cases buildNodes text source (documentSegments text) with
    | error other => exact ⟨nofun, nofun⟩
    | ok own => simp [Except.map]
  · rw [← exists_buildNodes_iff hformed]
    cases buildNodes text source (documentSegments text) with
    | error other => exact ⟨nofun, nofun⟩
    | ok own => simp [Except.map]
  · rw [← buildNodes_eq_error_iff]
    cases buildNodes text source (documentSegments text) with
    | error other => simp [Except.map]
    | ok own => exact ⟨nofun, nofun⟩

-- Two conditions around a line, without the end of the outer one.
def openMarks : List Segment :=
  [.mark 0 "!if true\n".toList ⟨.startIf, "!if ".toList, "true".toList⟩,
    .mark 9 "!if false\n".toList ⟨.startIf, "!if ".toList, "false".toList⟩,
    .prose 19 "x\n".toList, .mark 21 "!endif\n".toList ⟨.endIf, "!endif".toList, []⟩]

def nestedNodes : List Node :=
  [.conditional ⟨.bool true, Calc.callFree_bool true⟩ "true"
    [.conditional ⟨.bool false, Calc.callFree_bool false⟩ "false"
      [.prose ⟨"x\n", ⟨0, ⟨19, 21⟩, 3⟩⟩] ⟨0, ⟨9, 18⟩, 2⟩]
    ⟨0, ⟨0, 8⟩, 1⟩]

def lastMark : Segment := .mark 28 "!endif\n".toList ⟨.endIf, "!endif".toList, []⟩

theorem balanced_innerMarks : Balanced (openMarks.drop 1) :=
  Balanced.wrap (Balanced.singleton (by decide) (by decide)) rfl rfl

-- Each end ends the condition next to it. Without the last one, the outer condition is left open.
theorem inner_condition_ends_first :
    parseDocument "!if true\n!if false\nx\n!endif\n!endif\n".toList 0 =
      .ok ⟨0, nestedNodes⟩ ∧
    Balanced (documentSegments "!if true\n!if false\nx\n!endif\n!endif\n".toList) ∧
    parseDocument "!if true\n!if false\nx\n!endif\n".toList 0 =
      .error (.malformed .ifWithoutEndif ⟨0, ⟨0, 8⟩, 1⟩) := by
  have hwhole : documentSegments "!if true\n!if false\nx\n!endif\n!endif\n".toList =
      openMarks ++ [lastMark] := by decide +kernel
  have hopen : documentSegments "!if true\n!if false\nx\n!endif\n".toList = openMarks := by
    decide +kernel
  have hbalanced : Balanced (openMarks ++ [lastMark]) := balanced_innerMarks.wrap rfl rfl
  obtain ⟨-, haccepted, -, -⟩ :=
    conditions_nest_as_brackets "!if true\n!if false\nx\n!endif\n!endif\n".toList 0
  obtain ⟨-, -, -, hrefused⟩ :=
    conditions_nest_as_brackets "!if true\n!if false\nx\n!endif\n".toList 0
  refine ⟨(haccepted _).mpr ?_, hwhole ▸ hbalanced, (hrefused _).mpr ?_⟩
  · rw [hwhole]
    cbv
  · have hreadings : openMarks.map
        (Segment.reading "!if true\n!if false\nx\n!endif\n".toList 0) =
          ((visits nestedNodes).take 4).map .ok := by cbv
    have hformed : ∀ own ∈ openMarks,
        own.WellFormed "!if true\n!if false\nx\n!endif\n".toList 0 := by
      intro own hown
      obtain ⟨visit, -, hvisit⟩ := List.mem_map.mp (hreadings ▸ List.mem_map_of_mem hown)
      exact ⟨visit, hvisit.symm⟩
    rw [hopen]
    exact @Refused.unclosed _ 0 openMarks [] (openMarks.drop 1) openMarks[0] rfl hformed
      (hbalanced.noStrayEnd.of_front (List.prefix_append _ _)) rfl balanced_innerMarks

end LiveDoc
