import LiveDoc.Proofs.Document.LineEnds
import LiveDoc.Proofs.Include.Insertion
import LiveDoc.Proofs.Run.Lifecycle
import LiveDoc.Proofs.Run.Verbatim

namespace LiveDoc

open Text

variable {σ : Type}

-- What a walk puts out at one of its steps, if the step is reached.
abbrev Print := Visit × Option String

-- The text of a walk, one step after the other.
def printed : List Print → String
  | [] => ""
  | own :: rest => own.2.getD "" ++ printed rest

-- A step that is taken only where all conditions hold.
def whereLive {α : Type} (branches : List Bool) (m : Running σ α) (other : α) : Running σ α :=
  if branches.all id then m else pure other

-- The walk that `expandVisits` takes, with what each step puts out kept apart.
def printVisits (executor : Executor σ) (layout : Layout) :
    List Visit → List Bool → Running σ (List Print)
  | [], _ => pure []
  | .prose piece :: rest, branches => do
      let out ← printVisits executor layout rest branches
      pure ((.prose piece, if branches.all id then some piece.text else none) :: out)
  | .directive directive :: rest, branches => do
      let out ← printVisits executor layout rest branches
      pure ((.directive directive, none) :: out)
  | .code block :: rest, branches => do
      let own ← whereLive branches
        ((fun executed => some (assembleNode layout executed)) <$> runBlock executor block) none
      let out ← printVisits executor layout rest branches
      pure ((.code block, own) :: out)
  | .enter guard source span :: rest, branches => do
      let included ← whereLive branches (do
        let progress ← get
        evaluateGuard guard source span progress.session) false
      let out ← printVisits executor layout rest (included :: branches)
      pure ((.enter guard source span, none) :: out)
  | .leave :: rest, branches => do
      let out ← printVisits executor layout rest branches.tail
      pure ((.leave, none) :: out)

theorem printed_append (front back : List Print) :
    printed (front ++ back) = printed front ++ printed back := by
  induction front with
  | nil => rw [List.nil_append, printed, String.empty_append]
  | cons own rest ih => rw [List.cons_append, printed, printed, ih, String.append_assoc]

theorem expandVisits_eq (executor : Executor σ) (layout : Layout) (vs : List Visit)
    (branches : List Bool) :
    expandVisits executor layout vs branches = printed <$> printVisits executor layout vs branches := by
  induction vs generalizing branches with
  | nil => simp [expandVisits, printVisits, printed]
  | cons visit rest ih =>
      cases visit with
      | prose piece =>
          simp only [expandVisits, printVisits, ih]
          cases branches.all id <;> simp [printed]
      | directive directive => simp [expandVisits, printVisits, ih, printed]
      | code block =>
          simp only [expandVisits, printVisits, whereLive]
          cases branches.all id <;> simp [ih, printed]
      | enter guard source span =>
          simp only [expandVisits, printVisits, whereLive]
          cases branches.all id <;> simp [ih, printed]
      | leave => simp [expandVisits, printVisits, ih, printed]

section Blocks

-- What stands before the lines of a block does not change how it ends.
theorem getLast?_leadLines (lead text : List Char) :
    (leadLines lead text).getLast? = text.getLast? := by
  have hmore : ∀ ls : List (List Char), LineList ls →
      (ls.map (leadLine lead)).flatten.getLast? = ls.flatten.getLast? := by
    intro ls hls
    induction hls with
    | nil => rfl
    | open_ hne _ => simp [leadLine, List.getLast?_append_of_ne_nil _ hne]
    | @ended front more _ _ ih =>
        have hne : front ++ ['\n'] ≠ [] := by simp
        rw [List.map_cons, List.flatten_cons, List.flatten_cons, List.getLast?_append, ih,
          List.getLast?_append, leadLine, List.getLast?_append_of_ne_nil _ hne]
  have hlines := lineList_lines text
  have hflat := flatten_lines text
  unfold leadLines
  cases hcut : lines text with
  | nil => rw [← hflat, hcut, List.flatten_nil]
  | cons first rest =>
      rw [hcut] at hlines hflat
      have hrest : LineList rest := by
        cases hlines with
        | open_ _ _ => exact .nil
        | ended _ hrest => exact hrest
      rw [← hflat, List.flatten_cons, List.getLast?_append, hmore rest hrest, List.getLast?_append]

theorem getLast?_join {pieces : List String} (hne : pieces ≠ [])
    (h : ∀ piece ∈ pieces, piece.toList.getLast? = some '\n') :
    (String.join pieces).toList.getLast? = some '\n' := by
  induction pieces with
  | nil => exact (hne rfl).elim
  | cons piece rest ih =>
      rw [String.join_cons, String.toList_append, List.getLast?_append]
      by_cases hrest : rest = []
      · subst hrest
        exact h piece (List.mem_cons_self ..)
      · rw [ih hrest fun other hother => h other (List.mem_cons_of_mem _ hother), Option.some_or]

theorem getLast?_blockPieces {layout : Layout} {block : CodeBlock} {result : Option BlockResult}
    {piece : String} (h : piece ∈ blockPieces layout block result) :
    piece.toList.getLast? = some '\n' := by
  have hend (text : String) : (text ++ "\n").toList.getLast? = some '\n' := by simp
  simp only [blockPieces, List.mem_append] at h
  rcases h with h | h
  · split at h
    · cases List.mem_singleton.mp h
      exact hend _
    · cases h
  · split at h
    · cases h
    · rename_i result
      rcases List.mem_append.mp h with h | h
      · split at h
        · cases List.mem_singleton.mp h
          exact hend _
        · cases h
      · split at h
        · rename_i hshows
          cases List.mem_singleton.mp h
          have hne : result.artifacts ≠ [] := by
            intro hnone
            simp [hnone] at hshows
          refine getLast?_join (by simpa using hne) fun image himage => ?_
          obtain ⟨name, _, rfl⟩ := List.mem_map.mp himage
          rw [String.toList_append]
          exact List.getLast?_append_of_ne_nil _ (by simp)
        · cases h

theorem getLast?_joined {pieces : List String} (hne : pieces ≠ [])
    (h : ∀ piece ∈ pieces, piece.toList.getLast? = some '\n') :
    (joined "\n" pieces).toList.getLast? = some '\n' := by
  induction pieces with
  | nil => exact (hne rfl).elim
  | cons piece rest ih =>
      cases rest with
      | nil => exact h piece (List.mem_cons_self ..)
      | cons next more =>
          have hlast := ih (List.cons_ne_nil next more) fun other hother =>
            h other (List.mem_cons_of_mem _ hother)
          rw [joined, String.toList_append, List.getLast?_append, hlast, Option.some_or]
          exact fun h => List.cons_ne_nil next more h

-- What a block leaves is nothing, or stops with a newline.
theorem atLineStart_assembleBlock (layout : Layout) (block : CodeBlock)
    (result : Option BlockResult) :
    atLineStart (assembleBlock layout block result).toList = true := by
  unfold assembleBlock
  split
  · rfl
  · rename_i pieces hne
    rw [String.toList_ofList]
    refine atLineStart_of_getLast? ?_
    rw [getLast?_leadLines]
    exact getLast?_joined hne fun piece => getLast?_blockPieces

end Blocks

-- What a walk can put out where some conditions are open, and which are open after it. A block
-- puts out nothing or whole lines.
inductive Printing : List Bool → List Print → List Bool → Prop
  | nil (branches : List Bool) : Printing branches [] branches
  | prose {branches last : List Bool} {rest : List Print} (piece : Prose) :
      Printing branches rest last →
      Printing branches ((.prose piece, if branches.all id then some piece.text else none) :: rest)
        last
  | directive {branches last : List Bool} {rest : List Print} (directive : Include) :
      Printing branches rest last → Printing branches ((.directive directive, none) :: rest) last
  | code {branches last : List Bool} {rest : List Print} {own : Option String}
      (block : CodeBlock) : (own = none → branches.all id = false) →
      (∀ text, own = some text → atLineStart text.toList = true) →
      Printing branches rest last → Printing branches ((.code block, own) :: rest) last
  | enter {branches last : List Bool} {rest : List Print} (guard : Calc.Guard) (source : String)
      (span : Span) (included : Bool) :
      Printing (included :: branches) rest last →
      Printing branches ((.enter guard source span, none) :: rest) last
  | leave {branches last : List Bool} {rest : List Print} :
      Printing branches.tail rest last → Printing branches ((.leave, none) :: rest) last

theorem Printing.split {branches last : List Bool} {front back : List Print}
    (h : Printing branches (front ++ back) last) :
    ∃ middle, Printing branches front middle ∧ Printing middle back last := by
  induction front generalizing branches with
  | nil => exact ⟨branches, .nil branches, h⟩
  | cons own rest ih =>
      cases h with
      | prose piece h =>
          obtain ⟨middle, hfront, hback⟩ := ih h
          exact ⟨middle, .prose piece hfront, hback⟩
      | directive directive h =>
          obtain ⟨middle, hfront, hback⟩ := ih h
          exact ⟨middle, .directive directive hfront, hback⟩
      | code block hlive hown h =>
          obtain ⟨middle, hfront, hback⟩ := ih h
          exact ⟨middle, .code block hlive hown hfront, hback⟩
      | enter guard source span included h =>
          obtain ⟨middle, hfront, hback⟩ := ih h
          exact ⟨middle, .enter guard source span included hfront, hback⟩
      | leave h =>
          obtain ⟨middle, hfront, hback⟩ := ih h
          exact ⟨middle, .leave hfront, hback⟩

theorem run_runBlock_eq_ok {executor : Executor σ} {block : CodeBlock}
    {progress after : Progress σ} {executed : Executed}
    (h : (runBlock executor block).run progress = (.ok executed, after)) :
    ∃ result, executed = .block block result := by
  cases hexecutes : block.modifiers.executes with
  | false =>
      rw [run_runBlock_skipped hexecutes] at h
      cases h
      exact ⟨none, rfl⟩
  | true =>
      obtain ⟨execution, next, hexecute⟩ : ∃ execution next,
          progress.execute executor block = (execution, next) := ⟨_, _, rfl⟩
      cases hfailure : execution.failure with
      | none =>
          rw [run_runBlock_succeeded hexecutes hexecute hfailure] at h
          cases h
          exact ⟨_, rfl⟩
      | some failure =>
          rw [run_runBlock_failed hexecutes hexecute hfailure] at h
          cases h

-- What a block puts out where it is reached, and that it puts out nothing only where it is not.
theorem print_of_run {executor : Executor σ} {layout : Layout} {branches : List Bool}
    {block : CodeBlock} {progress after : Progress σ} {own : Option String}
    (h : (whereLive branches ((fun executed => some (assembleNode layout executed)) <$>
      runBlock executor block) none).run progress = (.ok own, after)) :
    (own = none → branches.all id = false) ∧
      ∀ text, own = some text → atLineStart text.toList = true := by
  unfold whereLive at h
  split at h
  · rw [map_eq_pure_bind] at h
    obtain ⟨executed, next, hexecuted, h⟩ := Action.run_bind_eq_ok h
    cases h
    obtain ⟨result, rfl⟩ := run_runBlock_eq_ok hexecuted
    refine ⟨nofun, ?_⟩
    rintro text ⟨⟩
    exact atLineStart_assembleBlock layout block result
  · rename_i hdead
    cases h
    exact ⟨fun _ => Bool.eq_false_iff.mpr hdead, nofun⟩

theorem printing_of_run {executor : Executor σ} {layout : Layout} {vs : List Visit}
    {branches : List Bool} {progress after : Progress σ} {prints : List Print}
    (h : (printVisits executor layout vs branches).run progress = (.ok prints, after)) :
    prints.map Prod.fst = vs ∧ ∃ last, Printing branches prints last := by
  induction vs generalizing branches progress prints with
  | nil =>
      cases h
      exact ⟨rfl, _, .nil branches⟩
  | cons visit rest ih =>
      cases visit with
      | prose piece =>
          obtain ⟨out, middle, hout, h⟩ := Action.run_bind_eq_ok h
          cases h
          obtain ⟨hvisits, last, hprints⟩ := ih hout
          exact ⟨congrArg _ hvisits, last, .prose piece hprints⟩
      | directive directive =>
          obtain ⟨out, middle, hout, h⟩ := Action.run_bind_eq_ok h
          cases h
          obtain ⟨hvisits, last, hprints⟩ := ih hout
          exact ⟨congrArg _ hvisits, last, .directive directive hprints⟩
      | code block =>
          obtain ⟨own, start, hown, h⟩ := Action.run_bind_eq_ok h
          obtain ⟨out, middle, hout, h⟩ := Action.run_bind_eq_ok h
          cases h
          obtain ⟨hvisits, last, hprints⟩ := ih hout
          obtain ⟨hdead, hends⟩ := print_of_run hown
          exact ⟨congrArg _ hvisits, last, .code block hdead hends hprints⟩
      | enter guard source span =>
          obtain ⟨included, start, hincluded, h⟩ := Action.run_bind_eq_ok h
          obtain ⟨out, middle, hout, h⟩ := Action.run_bind_eq_ok h
          cases h
          obtain ⟨hvisits, last, hprints⟩ := ih hout
          exact ⟨congrArg _ hvisits, last, .enter guard source span included hprints⟩
      | leave =>
          obtain ⟨out, middle, hout, h⟩ := Action.run_bind_eq_ok h
          cases h
          obtain ⟨hvisits, last, hprints⟩ := ih hout
          exact ⟨congrArg _ hvisits, last, .leave hprints⟩

-- A print of a step, with what classification gives to the blocks left aside.
inductive Alike : Visit → Print → Prop
  | prose (piece : Prose) (text : Option String) : Alike (.prose piece) (.prose piece, text)
  | code {block own : CodeBlock} (text : Option String) :
      own.lead = block.lead → Alike (.code block) (.code own, text)
  | enter (guard : Calc.Guard) (source : String) (span : Span) (text : Option String) :
      Alike (.enter guard source span) (.enter guard source span, text)
  | leave (text : Option String) : Alike .leave (.leave, text)

theorem lead_classifyBlock {registry : Registry} {language : String} {index : Nat}
    {block own : CodeBlock} (h : classifyBlock registry language index block = .ok own) :
    own.lead = block.lead := by
  unfold classifyBlock at h
  cases htags : resolveTags registry block.span [] block.tags with
  | error e =>
      rw [htags] at h
      cases h
  | ok seen =>
      rw [htags] at h
      simp only [bind, Except.bind] at h
      split at h
      · cases h
        rfl
      · split at h
        · cases h
        · cases h
          rfl

theorem alike_of_classifies {registry : Registry} {language : String} {next last : Nat}
    {vs ws : List Visit} (h : Classifies registry language next vs ws last) {prints : List Print}
    (hprints : prints.map Prod.fst = ws) : List.Forall₂ Alike vs prints := by
  induction h generalizing prints with
  | nil =>
      cases List.map_eq_nil_iff.mp hprints
      exact .nil
  | prose piece _ ih =>
      obtain ⟨⟨_, text⟩, more, rfl, rfl, hmore⟩ := List.map_eq_cons_iff.mp hprints
      exact .cons (.prose piece text) (ih hmore)
  | code hblock _ ih =>
      obtain ⟨⟨_, text⟩, more, rfl, rfl, hmore⟩ := List.map_eq_cons_iff.mp hprints
      exact .cons (.code text (lead_classifyBlock hblock)) (ih hmore)
  | enter guard source span _ ih =>
      obtain ⟨⟨_, text⟩, more, rfl, rfl, hmore⟩ := List.map_eq_cons_iff.mp hprints
      exact .cons (.enter guard source span text) (ih hmore)
  | leave _ ih =>
      obtain ⟨⟨_, text⟩, more, rfl, rfl, hmore⟩ := List.map_eq_cons_iff.mp hprints
      exact .cons (.leave text) (ih hmore)

theorem exists_split_of_forall₂ {α β : Type} {R : α → β → Prop} {front back : List α} {all : List β}
    (h : List.Forall₂ R (front ++ back) all) :
    ∃ own rest, all = own ++ rest ∧ List.Forall₂ R front own ∧ List.Forall₂ R back rest :=
  ⟨all.take front.length, all.drop front.length, (List.take_append_drop _ _).symm,
    (List.forall₂_take_append all front back h.flip).flip,
    (List.forall₂_drop_append all front back h.flip).flip⟩

-- Where parsing and running succeed, the prints of the run put together are its document.
theorem exists_prints_of_runDocument {executor : Executor σ} {registry : Registry}
    (layout : Layout) {document : Document} {classified : Classified} {progress after : Progress σ}
    {executed : List Executed}
    (hclassify : classify registry executor.language document = .ok classified)
    (hrun : (runDocument executor classified).run progress = (.ok executed, after)) :
    ∃ prints last, (printVisits executor layout (visits classified.document.nodes) []).run
        (progress.pending classified) = (.ok prints, after) ∧
      printed prints = assemble layout executed ∧
      List.Forall₂ Alike (visits document.nodes) prints ∧ Printing [] prints last := by
  obtain ⟨-, hfree, last, hclassifies⟩ := classifies_of_classify hclassify
  obtain ⟨-, hnodes⟩ := run_runDocument_eq_ok hrun
  have hwalk := @expandVisits_nodes _ executor layout classified.document.nodes [] [] rfl hfree
  rw [List.append_nil, expandVisits_eq, map_eq_pure_bind] at hwalk
  have hall : ((printVisits executor layout (visits classified.document.nodes) []) >>=
      fun prints => pure (printed prints)).run (progress.pending classified) =
        (.ok (assemble layout executed), after) := by
    rw [hwalk, Action.run_bind_of_ok hnodes]
    simp [expandVisits]
  obtain ⟨prints, stop, hprints, hpure⟩ := Action.run_bind_eq_ok hall
  obtain ⟨hprinted, rfl⟩ := Prod.mk.inj hpure
  obtain ⟨hvisits, last, hprinting⟩ := printing_of_run hprints
  exact ⟨prints, last, hprints, Except.ok.inj hprinted, alike_of_classifies hclassifies hvisits, hprinting⟩

end LiveDoc
