import LiveDoc.Markdown.Inline
import LiveDoc.Proofs.Markdown.Drafts

namespace LiveDoc.Markdown

-- One step through a text of which the ends of lines are shown as `mark`.
def shownStep (mark : List Char) (labels : List (List Char)) (before : Option Char) (c : Char)
    (rest : List Char) (s : InlineScan) : Nat × InlineScan :=
  if isLineEnd c then (1, s.add mark) else inlineStep labels before c rest s

def shownFrom (mark : List Char) (labels : List (List Char)) (before : Option Char)
    (s : InlineScan) : List Char → InlineScan
  | [] => s
  | c :: rest =>
      let (size, next) := shownStep mark labels before c rest s
      shownFrom mark labels ((c :: rest).take size).getLast? next (rest.drop (size - 1))
termination_by text => text.length
decreasing_by simp only [List.length_cons, List.length_drop]; omega

-- The text that a reader sees: markup goes, and where a line ends outside of markup and code there is
-- a `mark`.
def shownText (mark : List Char) (labels : List (List Char)) (text : List Char) : List Char :=
  (shownFrom mark labels none ⟨[], []⟩ text).text

section Plain

variable {labels : List (List Char)} {before : Option Char} {text : List Char}

theorem inlineStep_lineEnd {c : Char} (h : isLineEnd c = true) (labels : List (List Char))
    (before : Option Char) (rest : List Char) (s : InlineScan) :
    inlineStep labels before c rest s = (1, s) := by
  have hc : c = '\n' ∨ c = '\r' := by simpa [isLineEnd] using h
  rcases hc with rfl | rfl <;> simp [inlineStep, isLineEnd, backtick]

-- On one line there is nothing to show.
theorem shownFrom_of_plain (mark : List Char) (s : InlineScan)
    (h : ∀ c ∈ text, isLineEnd c = false) :
    shownFrom mark labels before s text = inlineFrom labels before s text := by
  induction hn : text.length using Nat.strongRecOn generalizing before s text with
  | _ n ih =>
      cases text with
      | nil => rw [shownFrom, inlineFrom]
      | cons c rest =>
          obtain ⟨hc, hrest⟩ := List.forall_mem_cons.mp h
          rw [shownFrom, inlineFrom, shownStep, hc, if_neg Bool.false_ne_true]
          dsimp only
          refine ih _ ?_ _ (fun d hd => hrest d (List.mem_of_mem_drop hd)) rfl
          rw [← hn, List.length_drop, List.length_cons]
          omega

theorem shownText_of_plain (mark : List Char) (labels : List (List Char))
    (h : ∀ c ∈ text, isLineEnd c = false) :
    shownText mark labels text = inlineText labels text := by
  rw [shownText, inlineText, shownFrom_of_plain mark _ h]

end Plain

-- The states of a reading of emphasis, with the ends of lines left open.
structure RunDraft where
  run : MarkRun
  left : Nat
  after : Draft

def RunDraft.fill (mark : List Char) (o : RunDraft) : OpenRun := ⟨o.run, o.left, o.after.fill mark⟩

structure OpenersDraft where
  front : Draft
  runs : List RunDraft
  barred : Nat

def OpenersDraft.fill (mark : List Char) (o : OpenersDraft) : Openers :=
  ⟨o.front.fill mark, o.runs.map (·.fill mark), o.barred⟩

section Emphasis

theorem exists_add (o : OpenersDraft) (t : Draft) :
    ∃ next : OpenersDraft, ∀ mark, (o.fill mark).add (t.fill mark) = next.fill mark := by
  obtain ⟨front, runs, barred⟩ := o
  cases runs with
  | nil => exact ⟨⟨front ++ t, [], barred⟩, fun mark => by simp [OpenersDraft.fill, Openers.add]⟩
  | cons run outer =>
      exact ⟨⟨front, { run with after := run.after ++ t } :: outer, barred⟩,
        fun mark => by simp [OpenersDraft.fill, RunDraft.fill, Openers.add]⟩

theorem add_nil (o : Openers) : o.add [] = o := by
  obtain ⟨front, runs, barred⟩ := o
  cases runs <;> simp [Openers.add]

theorem exists_textOf (runs : List RunDraft) :
    ∃ t : Draft, ∀ mark, Openers.textOf (runs.map (·.fill mark)) = t.fill mark := by
  induction runs with
  | nil => exact ⟨[], fun _ => rfl⟩
  | cons run outer ih =>
      obtain ⟨t, ht⟩ := ih
      refine ⟨t ++ (Draft.ofText (List.replicate run.left run.run.mark) ++ run.after), fun mark => ?_⟩
      rw [Draft.fill_append, Draft.fill_append, Draft.fill_ofText, ← ht mark]
      simp [Openers.textOf, Openers.OpenRun.text, RunDraft.fill]

theorem exists_text (o : OpenersDraft) : ∃ t : Draft, ∀ mark, (o.fill mark).text = t.fill mark := by
  obtain ⟨t, ht⟩ := exists_textOf o.runs
  exact ⟨o.front ++ t, fun mark => by rw [Draft.fill_append, ← ht mark]; rfl⟩

-- The run that a closing one matches is found by the marks alone.
theorem find?_cases (closer : MarkRun) (runs : List RunDraft) :
    (∀ mark, Openers.find? closer (runs.map (·.fill mark)) = none) ∨
      ∃ inner : List RunDraft, ∃ found : RunDraft, ∃ outer : List RunDraft, ∀ mark,
        Openers.find? closer (runs.map (·.fill mark)) =
          some (inner.map (·.fill mark), found.fill mark, outer.map (·.fill mark)) := by
  induction runs with
  | nil => exact .inl fun _ => rfl
  | cons run outer ih =>
      cases hcloses : closer.closes run.run with
      | true =>
          refine .inr ⟨[], run, outer, fun mark => ?_⟩
          rw [List.map_cons, Openers.find?]
          exact if_pos hcloses
      | false =>
          have hskip : ∀ mark, Openers.find? closer ((run :: outer).map (·.fill mark)) =
              (Openers.find? closer (outer.map (·.fill mark))).map fun inside =>
                (run.fill mark :: inside.1, inside.2) := fun mark => by
            rw [List.map_cons, Openers.find?]
            exact if_neg (by simp [RunDraft.fill, hcloses])
          rcases ih with hnone | ⟨inner, found, rest, hfound⟩
          · exact .inl fun mark => by rw [hskip, hnone]; rfl
          · exact .inr ⟨run :: inner, found, rest, fun mark => by rw [hskip, hfound]; rfl⟩

theorem reachable_fill (closer : MarkRun) (o : OpenersDraft) :
    ∃ runs : List RunDraft, ∀ mark,
      (o.fill mark).reachable closer = runs.map (·.fill mark) := by
  by_cases htilde : closer.mark = '~'
  · refine ⟨o.runs.take (o.runs.length - o.barred), fun mark => ?_⟩
    rw [Openers.reachable, if_pos htilde]
    simp [OpenersDraft.fill]
  · exact ⟨o.runs, fun mark => by rw [Openers.reachable, if_neg htilde]; rfl⟩

-- What is open once `used` marks of a run have matched. Marks that are left keep the run open.
def matched (o : Openers) (outer : List OpenRun) (found : OpenRun) (body : List Char) (used : Nat) :
    Openers :=
  let kept := { o with runs := outer, barred := min o.barred outer.length }
  if used < found.left then
    { kept with runs := { found with left := found.left - used, after := body } :: outer }
  else kept.add body

theorem close_of_find? {closer : MarkRun} {more : Nat} {o : Openers} {inner rest : List OpenRun}
    {found : OpenRun} (h : Openers.find? closer (o.reachable closer) = some (inner, found, rest)) :
    o.close closer (more + 1) = Openers.close closer (more + 1 - max (min (more + 1) found.left) 1)
      (matched o (o.runs.drop (inner.length + 1)) found (found.after ++ Openers.textOf inner)
        (min (more + 1) found.left)) := by
  rw [Openers.close, h]
  rfl

theorem exists_matched (o : OpenersDraft) (outer : List RunDraft) (found : RunDraft) (body : Draft)
    (used : Nat) :
    ∃ next : OpenersDraft, ∀ mark, matched (o.fill mark) (outer.map (·.fill mark)) (found.fill mark)
      (body.fill mark) used = next.fill mark := by
  by_cases hleft : used < found.left
  · refine ⟨⟨o.front, ⟨found.run, found.left - used, body⟩ :: outer, min o.barred outer.length⟩,
      fun mark => ?_⟩
    rw [matched]
    dsimp only
    rw [if_pos (show used < (found.fill mark).left from hleft), List.length_map]
    rfl
  · obtain ⟨next, hnext⟩ := exists_add ⟨o.front, outer, min o.barred outer.length⟩ body
    refine ⟨next, fun mark => ?_⟩
    rw [matched]
    dsimp only
    rw [if_neg (show ¬used < (found.fill mark).left from hleft), List.length_map]
    exact hnext mark

-- Nor does it take more to match them.
theorem exists_close (closer : MarkRun) (count : Nat) (o : OpenersDraft) :
    ∃ left, ∃ next : OpenersDraft, ∀ mark,
      (o.fill mark).close closer count = (left, next.fill mark) := by
  induction count using Nat.strongRecOn generalizing o with
  | _ count ih =>
      cases count with
      | zero => exact ⟨0, o, fun mark => by rw [Openers.close]⟩
      | succ more =>
          obtain ⟨runs, hruns⟩ := reachable_fill closer o
          rcases find?_cases closer runs with hnone | ⟨inner, found, rest, hfound⟩
          · by_cases htilde : closer.mark = '~'
            · refine ⟨more + 1, { o with barred := o.runs.length }, fun mark => ?_⟩
              rw [Openers.close, hruns, hnone]
              simp [htilde, OpenersDraft.fill]
            · refine ⟨more + 1, o, fun mark => ?_⟩
              rw [Openers.close, hruns, hnone]
              simp [htilde]
          · obtain ⟨t, ht⟩ := exists_textOf inner
            obtain ⟨next, hnext⟩ := exists_matched o (o.runs.drop (inner.length + 1)) found
              (found.after ++ t) (min (more + 1) found.left)
            obtain ⟨left, last, hlast⟩ :=
              ih (more + 1 - max (min (more + 1) found.left) 1) (by omega) next
            refine ⟨left, last, fun mark => ?_⟩
            have houter : (o.fill mark).runs.drop ((inner.map (·.fill mark)).length + 1) =
                (o.runs.drop (inner.length + 1)).map (·.fill mark) := by simp [OpenersDraft.fill]
            have hbody : (found.fill mark).after ++ Openers.textOf (inner.map (·.fill mark)) =
                (found.after ++ t).fill mark := by
              rw [ht, Draft.fill_append]
              rfl
            rw [close_of_find? (hruns mark ▸ hfound mark), houter, hbody]
            exact (congrArg _ (hnext mark)).trans (hlast mark)

theorem exists_readMarks (o : OpenersDraft) (run : MarkRun) :
    ∃ next : OpenersDraft, ∀ mark, (o.fill mark).readMarks run = next.fill mark := by
  obtain ⟨left, middle, hmiddle⟩ : ∃ left, ∃ middle : OpenersDraft, ∀ mark,
      (if run.canClose then (o.fill mark).close run run.length else (run.length, o.fill mark)) =
        (left, middle.fill mark) := by
    split
    · exact exists_close run run.length o
    · exact ⟨run.length, o, fun _ => rfl⟩
  by_cases hnone : left = 0
  · refine ⟨middle, fun mark => ?_⟩
    rw [Openers.readMarks, hmiddle]
    exact if_pos hnone
  · by_cases hopen : run.canOpen = true
    · refine ⟨{ middle with runs := ⟨run, left, []⟩ :: middle.runs }, fun mark => ?_⟩
      rw [Openers.readMarks, hmiddle]
      dsimp only
      rw [if_neg hnone, if_pos hopen]
      rfl
    · obtain ⟨next, hnext⟩ := exists_add middle (Draft.ofText (List.replicate left run.mark))
      refine ⟨next, fun mark => ?_⟩
      rw [Openers.readMarks, hmiddle, ← hnext mark, Draft.fill_ofText]
      dsimp only
      rw [if_neg hnone, if_neg hopen]

end Emphasis

-- The states of a scan, with the ends of lines left open. The scan of the program shows nothing there,
-- which is written as no mark at all.
inductive PieceDraft where
  | text (draft : Draft)
  | marks (run : MarkRun)
  | lineEnd

def PieceDraft.fill (mark : Option (List Char)) : PieceDraft → List Piece
  | .text draft => [.text (draft.fill (mark.getD []))]
  | .marks run => [.marks run]
  | .lineEnd => (mark.map Piece.text).toList

def fillPieces (mark : Option (List Char)) (pieces : List PieceDraft) : List Piece :=
  pieces.flatMap (·.fill mark)

structure BracketDraft where
  image : Bool
  active : Bool
  text : List Char
  before : List PieceDraft

def BracketDraft.fill (mark : Option (List Char)) (b : BracketDraft) : Bracket :=
  ⟨b.image, b.active, b.text, fillPieces mark b.before⟩

structure ScanDraft where
  brackets : List BracketDraft
  pieces : List PieceDraft

def ScanDraft.fill (mark : Option (List Char)) (s : ScanDraft) : InlineScan :=
  ⟨s.brackets.map (·.fill mark), fillPieces mark s.pieces⟩

def ScanDraft.add (s : ScanDraft) (piece : PieceDraft) : ScanDraft :=
  { s with pieces := piece :: s.pieces }

section Pieces

variable {mark : Option (List Char)}

theorem fillPieces_cons (piece : PieceDraft) (pieces : List PieceDraft) :
    fillPieces mark (piece :: pieces) = piece.fill mark ++ fillPieces mark pieces := rfl

theorem fillPieces_append (front back : List PieceDraft) :
    fillPieces mark (front ++ back) = fillPieces mark front ++ fillPieces mark back :=
  List.flatMap_append

theorem fillPieces_reverse (pieces : List PieceDraft) :
    (fillPieces mark pieces).reverse = fillPieces mark pieces.reverse := by
  have hone : ∀ piece : PieceDraft, (piece.fill mark).reverse = piece.fill mark := by
    intro piece
    cases piece with
    | text _ | marks _ => rfl
    | lineEnd => cases mark <;> rfl
  rw [fillPieces, List.reverse_flatMap, fillPieces]
  simp only [Function.comp_def, hone]

theorem fill_textPiece (text : List Char) :
    (PieceDraft.text (Draft.ofText text)).fill mark = [.text text] := by
  simp [PieceDraft.fill]

-- A piece at the end of a line is read as the mark, and as nothing where the program is scanning.
theorem exists_foldl_read (pieces : List PieceDraft) (o : OpenersDraft) :
    ∃ last : OpenersDraft, ∀ mark : Option (List Char),
      (fillPieces mark pieces).foldl Openers.read (o.fill (mark.getD [])) =
        last.fill (mark.getD []) := by
  induction pieces generalizing o with
  | nil => exact ⟨o, fun _ => rfl⟩
  | cons piece more ih =>
      obtain ⟨next, hnext⟩ : ∃ next : OpenersDraft, ∀ mark : Option (List Char),
          (piece.fill mark).foldl Openers.read (o.fill (mark.getD [])) = next.fill (mark.getD []) := by
        cases piece with
        | text draft =>
            obtain ⟨next, hnext⟩ := exists_add o draft
            exact ⟨next, fun mark => hnext (mark.getD [])⟩
        | marks run =>
            obtain ⟨next, hnext⟩ := exists_readMarks o run
            exact ⟨next, fun mark => hnext (mark.getD [])⟩
        | lineEnd =>
            obtain ⟨next, hnext⟩ := exists_add o [none]
            refine ⟨next, fun mark => ?_⟩
            have hmark := hnext (mark.getD [])
            rw [Draft.fill_none, Draft.fill_nil, List.append_nil] at hmark
            cases mark with
            | none => exact (add_nil _).symm.trans hmark
            | some mark => exact hmark
      obtain ⟨last, hlast⟩ := ih next
      refine ⟨last, fun mark => ?_⟩
      rw [fillPieces_cons, List.foldl_append, hnext, hlast]

theorem exists_visible (pieces : List PieceDraft) :
    ∃ t : Draft, ∀ mark : Option (List Char),
      visible (fillPieces mark pieces) = t.fill (mark.getD []) := by
  obtain ⟨last, hlast⟩ := exists_foldl_read pieces ⟨[], [], 0⟩
  obtain ⟨t, ht⟩ := exists_text last
  exact ⟨t, fun mark => by rw [← ht, ← hlast]; rfl⟩

theorem exists_flatten (pieces : List PieceDraft) (brackets : List BracketDraft) :
    ∃ all : List PieceDraft, ∀ mark,
      InlineScan.flatten (fillPieces mark pieces) (brackets.map (·.fill mark)) =
        fillPieces mark all := by
  induction brackets generalizing pieces with
  | nil => exact ⟨pieces, fun _ => rfl⟩
  | cons b outer ih =>
      obtain ⟨all, hall⟩ := ih (pieces ++
        .text (Draft.ofText (if b.image then ['!', '['] else ['['])) :: b.before)
      refine ⟨all, fun mark => ?_⟩
      rw [← hall mark, List.map_cons, InlineScan.flatten, fillPieces_append, fillPieces_cons,
        fill_textPiece]
      rfl

theorem exists_scanText (s : ScanDraft) :
    ∃ t : Draft, ∀ mark : Option (List Char), (s.fill mark).text = t.fill (mark.getD []) := by
  obtain ⟨all, hall⟩ := exists_flatten s.pieces s.brackets
  obtain ⟨t, ht⟩ := exists_visible all.reverse
  refine ⟨t, fun mark => ?_⟩
  rw [← ht mark, ← fillPieces_reverse, ← hall mark]
  rfl

end Pieces

-- A step takes the same characters and leads to the same state, whatever the ends of lines are shown
-- as.
def Steps (step : Option (List Char) → Nat × InlineScan) : Prop :=
  ∃ size, ∃ next : ScanDraft, ∀ mark, step mark = (size, next.fill mark)

section Steps

variable (labels : List (List Char)) (s : ScanDraft)

theorem steps_stay (size : Nat) : Steps fun mark => (size, s.fill mark) := ⟨size, s, fun _ => rfl⟩

theorem steps_add (size : Nat) (text : List Char) : Steps fun mark => (size, (s.fill mark).add text) :=
  ⟨size, s.add (.text (Draft.ofText text)), fun mark => by
    simp [ScanDraft.fill, ScanDraft.add, fillPieces_cons, fill_textPiece, InlineScan.add]⟩

theorem steps_push (size : Nat) (image : Bool) (text : List Char) :
    Steps fun mark => (size, (s.fill mark).push image text) :=
  ⟨size, ⟨⟨image, true, text, s.pieces⟩ :: s.brackets, []⟩, fun _ => rfl⟩

theorem steps_marksStep (before : Option Char) (mark : Char) (text : List Char) :
    Steps fun m => marksStep before mark text (s.fill m) := by
  unfold marksStep
  dsimp only
  split
  · exact ⟨_, s.add (.marks _), fun m => rfl⟩
  · exact steps_add s _ _

theorem steps_ticksStep (text : List Char) : Steps fun mark => ticksStep text (s.fill mark) := by
  unfold ticksStep
  dsimp only
  split
  · exact steps_add s _ _
  · exact steps_add s _ _

theorem steps_angleStep (rest : List Char) : Steps fun mark => angleStep rest (s.fill mark) := by
  unfold angleStep
  split
  · exact steps_add s _ _
  · split
    · exact steps_stay s _
    · exact steps_add s _ _

-- How a bracket closes depends on its own state and on what stands behind it.
theorem closeBracket_of_tail {b : Bracket} {size : Nat} {rest : List Char}
    (h : (if b.active then linkTail? labels b.text rest else none) = some size)
    (outer : List Bracket) (pieces : List Piece) :
    closeBracket labels rest ⟨b :: outer, pieces⟩ =
      (size + 1, ⟨if b.image then outer else outer.map Bracket.disable,
        .text (visible pieces.reverse) :: b.before⟩) := by
  rw [closeBracket]
  dsimp only
  rw [h]

theorem closeBracket_of_plain {b : Bracket} {rest : List Char}
    (h : (if b.active then linkTail? labels b.text rest else none) = none)
    (outer : List Bracket) (pieces : List Piece) :
    closeBracket labels rest ⟨b :: outer, pieces⟩ =
      (1, ⟨outer, .text [']'] :: pieces ++ .text (InlineScan.Bracket.mark b) :: b.before⟩) := by
  rw [closeBracket]
  dsimp only
  rw [h]

theorem exists_disable (brackets : List BracketDraft) :
    ∃ next : List BracketDraft, ∀ mark,
      (brackets.map (·.fill mark)).map Bracket.disable = next.map (·.fill mark) := by
  refine ⟨brackets.map fun b => if b.image then b else { b with active := false }, fun mark => ?_⟩
  rw [List.map_map, List.map_map]
  refine List.map_congr_left fun b _ => ?_
  cases himage : b.image <;> simp [Bracket.disable, BracketDraft.fill, himage]

theorem steps_closeBracket (rest : List Char) :
    Steps fun mark => closeBracket labels rest (s.fill mark) := by
  obtain ⟨brackets, pieces⟩ := s
  cases brackets with
  | nil => exact steps_add ⟨[], pieces⟩ 1 [']']
  | cons b outer =>
      cases htail : if b.active then linkTail? labels b.text rest else none with
      | some size =>
          obtain ⟨t, ht⟩ := exists_visible pieces.reverse
          obtain ⟨disabled, hdisabled⟩ := exists_disable outer
          refine ⟨size + 1, ⟨if b.image then outer else disabled, .text t :: b.before⟩, fun mark => ?_⟩
          refine (closeBracket_of_tail (b := b.fill mark) labels htail _ _).trans ?_
          rw [fillPieces_reverse, ht, hdisabled,
            ← apply_ite (List.map fun b : BracketDraft => b.fill mark)]
          rfl
      | none =>
          refine ⟨1, ⟨outer, .text (Draft.ofText [']']) :: pieces ++
            .text (Draft.ofText (if b.image then ['!', '['] else ['['])) :: b.before⟩, fun mark => ?_⟩
          refine (closeBracket_of_plain (b := b.fill mark) labels htail _ _).trans ?_
          dsimp only [ScanDraft.fill]
          simp only [fillPieces_cons, fillPieces_append, fill_textPiece, List.cons_append]
          rfl

theorem steps_inlineStep (before : Option Char) (c : Char) (rest : List Char) :
    Steps fun mark => inlineStep labels before c rest (s.fill mark) := by
  unfold inlineStep
  split
  · exact steps_marksStep s before c _
  · split
    · exact steps_ticksStep s _
    · split
      · exact steps_angleStep s rest
      · split
        · exact steps_closeBracket labels s rest
        · split
          · exact steps_push s 1 false rest
          · split
            · exact steps_push s 2 true _
            · split
              · exact steps_stay s 1
              · split
                · exact steps_add s 2 _
                · exact steps_add s 1 _
            · split
              · exact steps_add s _ _
              · exact steps_add s 1 _
            · dsimp only
              split
              · exact steps_stay s 1
              · split
                · exact steps_stay s _
                · split
                  · exact steps_add s 1 _
                  · exact steps_add s 1 _

end Steps

section Scan

variable {labels : List (List Char)}

-- The program reads a text as it reads one whose ends of lines are shown, and shows nothing there.
theorem exists_scan (s : ScanDraft) (before : Option Char) (text : List Char) :
    ∃ last : ScanDraft,
      (∀ mark, shownFrom mark labels before (s.fill (some mark)) text = last.fill (some mark)) ∧
      inlineFrom labels before (s.fill none) text = last.fill none := by
  induction hn : text.length using Nat.strongRecOn generalizing s before text with
  | _ n ih =>
      cases text with
      | nil => exact ⟨s, fun mark => by rw [shownFrom], by rw [inlineFrom]⟩
      | cons c rest =>
          obtain ⟨size, next, hshown, hinline⟩ : ∃ size, ∃ next : ScanDraft,
              (∀ mark, shownStep mark labels before c rest (s.fill (some mark)) =
                (size, next.fill (some mark))) ∧
              inlineStep labels before c rest (s.fill none) = (size, next.fill none) := by
            cases hc : isLineEnd c with
            | true =>
                refine ⟨1, s.add .lineEnd, fun mark => ?_, ?_⟩
                · rw [shownStep, if_pos hc]
                  rfl
                · exact inlineStep_lineEnd hc labels before rest _
            | false =>
                obtain ⟨size, next, hnext⟩ := steps_inlineStep labels s before c rest
                refine ⟨size, next, fun mark => ?_, hnext none⟩
                rw [shownStep, hc, if_neg Bool.false_ne_true]
                exact hnext (some mark)
          have hlen : (rest.drop (size - 1)).length < n := by
            rw [← hn, List.length_drop, List.length_cons]
            omega
          obtain ⟨last, hlast, hown⟩ := ih _ hlen next ((c :: rest).take size).getLast? _ rfl
          refine ⟨last, fun mark => ?_, ?_⟩
          · rw [shownFrom, hshown]
            exact hlast mark
          · rw [inlineFrom, hinline]
            exact hown

-- What the program takes for the text of a heading is what a reader sees of it, but the ends of lines
-- are left out.
theorem exists_draft (labels : List (List Char)) (text : List Char) :
    ∃ draft : Draft, (∀ mark, shownText mark labels text = draft.fill mark) ∧
      inlineText labels text = draft.fill [] := by
  obtain ⟨last, hlast, hown⟩ := @exists_scan labels ⟨[], []⟩ none text
  obtain ⟨t, ht⟩ := exists_scanText last
  refine ⟨t, fun mark => ?_, ?_⟩
  · rw [shownText, show (⟨[], []⟩ : InlineScan) = ScanDraft.fill (some mark) ⟨[], []⟩ from rfl, hlast,
      ht]
    rfl
  · rw [inlineText, show (⟨[], []⟩ : InlineScan) = ScanDraft.fill none ⟨[], []⟩ from rfl, hown, ht]
    rfl

end Scan

end LiveDoc.Markdown
