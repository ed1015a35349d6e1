import LiveDoc.Proofs.Data.NameTable
import LiveDoc.Proofs.Document.Classification
import LiveDoc.Proofs.Run.Erasure
import LiveDoc.Proofs.Run.Steps
import Mathlib

namespace LiveDoc

open Calc (Binding Session Value)

variable {σ α : Type}

-- Calls of `bind`, one after the other.
def Calc.Session.bindAll (session : Session) (binds : List (String × Value)) : Session :=
  binds.foldl (fun session own => session.bind own.1 own.2) session

-- What the calls give the names, on behalf of a block.
def bindingsBy (index : Nat) (binds : List (String × Value)) : List (String × Binding) :=
  binds.map fun own => (own.1, ⟨own.2, index⟩)

theorem bindAll_eq (session : Session) (binds : List (String × Value)) :
    session.bindAll binds =
      { session with
        bindings := NameTable.putAll (bindingsBy session.current binds) session.bindings } := by
  induction binds generalizing session with
  | nil => rfl
  | cons own rest ih => exact ih (session.bind own.1 own.2)

theorem binding?_bindAll (session : Session) (binds : List (String × Value)) (name : String) :
    (session.bindAll binds).binding? name =
      (lastOf name (bindingsBy session.current binds)).or (session.binding? name) := by
  rw [bindAll_eq]
  exact NameTable.find?_putAll name _ session.bindings

-- An executor leaves the session that it is given with some calls of `bind`, and nothing else.
def Executor.BindsOnly (executor : Executor σ)
    (binds : String → Session → σ → List (String × Value)) : Prop :=
  ∀ code session host,
    (executor.execute code session host).2.1 = session.bindAll (binds code session host)

-- A call with the calls of `bind` that are made in it.
structure Note where
  call : Call
  binds : List (String × Value)

def Note.bindings (note : Note) : List (String × Binding) := bindingsBy note.call.index note.binds

-- The same executor, with notes of what it has done as part of its own state.
def Executor.noting (executor : Executor σ)
    (binds : String → Session → σ → List (String × Value)) : Executor (σ × List Note) where
  language := executor.language
  execute code session state :=
    let (execution, left, host) := executor.execute code session state.1
    (execution, left, host,
      state.2 ++ [⟨⟨code, session, execution, left⟩, binds code session state.1⟩])

def Progress.withNotes (progress : Progress σ) (notes : List Note) : Progress (σ × List Note) :=
  ⟨(progress.host, notes), progress.session, progress.store, progress.states⟩

theorem erases_noting (executor : Executor σ)
    (binds : String → Session → σ → List (String × Value)) :
    executor.Erases (executor.noting binds) Prod.fst := ⟨rfl, fun _ _ _ => rfl⟩

-- What the last call of `bind` for a name has given it, over several executions.
def lastBound (name : String) (notes : List Note) : Option Binding :=
  lastOf name (notes.flatMap Note.bindings)

-- Executions one after the other, from a session to a session, with nothing else between them.
inductive Noted : Session → List Note → Session → Prop
  | nil (session : Session) : Noted session [] session
  | cons {note : Note} {notes : List Note} {session last : Session} :
      note.call.given = session.enter note.call.index →
      note.call.left = note.call.given.bindAll note.binds →
      Noted note.call.left notes last → Noted session (note :: notes) last

section Noted

variable {session middle last : Session} {notes front back : List Note}

theorem Noted.append (h : Noted session front middle) (hback : Noted middle back last) :
    Noted session (front ++ back) last := by
  induction h with
  | nil => exact hback
  | cons hgiven hleft _ ih => exact .cons hgiven hleft (ih hback)

theorem Noted.exists_of_append (h : Noted session (front ++ back) last) :
    ∃ middle, Noted session front middle ∧ Noted middle back last := by
  induction front generalizing session with
  | nil => exact ⟨session, .nil session, h⟩
  | cons note rest ih =>
      cases h with
      | cons hgiven hleft hrest =>
          obtain ⟨middle, hfront, hback⟩ := ih hrest
          exact ⟨middle, .cons hgiven hleft hfront, hback⟩

-- A name has what it was given last, or what it had before.
theorem Noted.binding?_eq (h : Noted session notes last) (name : String) :
    last.binding? name = (lastBound name notes).or (session.binding? name) := by
  induction h with
  | nil => rfl
  | @cons note rest session last hgiven hleft _ ih =>
      have hsame : note.call.given.binding? name = session.binding? name := by
        rw [hgiven, Session.binding?_enter]
      rw [ih, hleft, binding?_bindAll, hsame, lastBound, lastBound, List.flatMap_cons,
        lastOf_append, Option.or_assoc]
      rfl

theorem Noted.given_eq {note : Note} (h : Noted .empty (front ++ note :: back) last)
    (name : String) : note.call.given.binding? name = lastBound name front := by
  obtain ⟨middle, hfront, hback⟩ := h.exists_of_append
  cases hback with
  | cons hgiven _ _ =>
      rw [hgiven, Session.binding?_enter, hfront.binding?_eq]
      exact Option.or_none

end Noted

section LastBound

variable {name : String} {notes : List Note} {binding : Binding}

theorem lastBound_cons (name : String) (note : Note) (rest : List Note) :
    lastBound name (note :: rest) = (lastBound name rest).or (lastOf name note.bindings) := by
  rw [lastBound, List.flatMap_cons, lastOf_append]
  rfl

theorem lastBound_eq_none_iff :
    lastBound name notes = none ↔ ∀ note ∈ notes, ∀ own ∈ note.binds, own.1 ≠ name := by
  rw [lastBound, lastOf_eq_none_iff]
  constructor
  · intro h note hnote own hown
    exact h _ (List.mem_flatMap.mpr ⟨note, hnote, List.mem_map_of_mem hown⟩)
  · intro h entry hentry
    obtain ⟨note, hnote, hentry⟩ := List.mem_flatMap.mp hentry
    obtain ⟨own, hown, rfl⟩ := List.mem_map.mp hentry
    exact h note hnote own hown

-- The call of `bind` that counts, with the calls behind it, which are for other names.
theorem exists_of_lastBound (h : lastBound name notes = some binding) :
    ∃ before note behind front back, notes = before ++ note :: behind ∧
      note.binds = front ++ (name, binding.value) :: back ∧ note.call.index = binding.boundBy ∧
      (∀ own ∈ back, own.1 ≠ name) ∧ ∀ later ∈ behind, ∀ own ∈ later.binds, own.1 ≠ name := by
  induction notes with
  | nil => cases h
  | cons note rest ih =>
      rw [lastBound_cons] at h
      cases hrest : lastBound name rest with
      | some other =>
          rw [hrest] at h
          obtain ⟨before, own, behind, front, back, rfl, hown⟩ := ih (hrest.trans h)
          exact ⟨note :: before, own, behind, front, back, rfl, hown⟩
      | none =>
          rw [hrest, Option.none_or] at h
          obtain ⟨front, back, hsplit, hback⟩ := exists_of_lastOf h
          obtain ⟨first, second, hbinds, rfl, hsecond⟩ := List.map_eq_append_iff.mp hsplit
          obtain ⟨own, others, rfl, hown, rfl⟩ := List.map_eq_cons_iff.mp hsecond
          cases hown
          refine ⟨[], note, rest, first, others, rfl, hbinds, rfl, fun other hother => ?_,
            lastBound_eq_none_iff.mp hrest⟩
          exact hback _ (List.mem_map_of_mem hother)

end LastBound

-- A block has run, whatever came of it.
def BlockState.ran : BlockState → Bool
  | .succeeded | .failed => true
  | _ => false

-- The blocks that have run, where each is listed with its state.
def ranOf (entries : List (CodeBlock × BlockState)) : List (Nat × String) :=
  (entries.filter (·.2.ran)).map fun entry => (entry.1.index, entry.1.content)

section Ran

variable {start : Session} {log : List Call} {stations : List Station}

-- The blocks of stations that a run gets past are called where they are then among those that have
-- run.
theorem ranOf_settled (start : Session) (log : List Call) (passed : List Station) :
    passed.filterMap (Station.call? start log) =
      ranOf ((passed.filterMap Station.block?).zip
        (passed.filterMap (Station.settled? start log))) := by
  induction passed with
  | nil => rfl
  | cons station rest ih =>
      cases station with
      | condition around own => exact ih
      | block around own =>
          cases hlive : allHold start log around <;> cases hexecutes : own.modifiers.executes <;>
            simp [Station.call?, Station.settled?, Station.block?, ranOf, BlockState.ran, hlive,
              hexecutes, ih]

theorem ranOf_fresh (left : List Station) :
    ranOf ((left.filterMap Station.block?).zip (left.filterMap Station.fresh?)) = [] := by
  refine List.map_eq_nil_iff.mpr (List.filter_eq_nil_iff.mpr fun entry hentry => ?_)
  rw [mem_fresh (List.of_mem_zip hentry).2]
  exact Bool.false_ne_true

theorem ranOf_append (front back : List (CodeBlock × BlockState)) :
    ranOf (front ++ back) = ranOf front ++ ranOf back := by
  rw [ranOf, List.filter_append, List.map_append]
  rfl

-- The calls of a run are those of the blocks that it leaves succeeded or failed.
theorem Ends.calls_eq {calls : List (Nat × String)} {states : List BlockState}
    {result : Except RunError α} (h : Ends start log stations calls states result) :
    calls = ranOf ((stations.filterMap Station.block?).zip states) := by
  cases h with
  | all _ _ => exact ranOf_settled start log stations
  | @block passed left around own call failure _ _ _ _ hkey _ =>
      have hblocks : (passed ++ .block around own :: left).filterMap Station.block? =
          passed.filterMap Station.block? ++ own :: left.filterMap Station.block? := by
        rw [List.filterMap_append]
        rfl
      have hfailed : ranOf ((own :: left.filterMap Station.block?).zip
          (.failed :: left.filterMap Station.fresh?)) = [call.key] := by
        have hrest := ranOf_fresh left
        rw [ranOf, List.map_eq_nil_iff] at hrest
        rw [List.zip_cons_cons, ranOf, List.filter_cons_of_pos rfl, hrest, hkey]
        rfl
      rw [hblocks, List.zip_append (length_filterMap_settled? ..).symm, ranOf_append, hfailed,
        ranOf_settled]
  | @condition passed left around own error _ _ _ =>
      have hblocks : (passed ++ .condition around own :: left).filterMap Station.block? =
          passed.filterMap Station.block? ++ left.filterMap Station.block? := by
        rw [List.filterMap_append]
        rfl
      rw [hblocks, List.zip_append (length_filterMap_settled? ..).symm, ranOf_append, ranOf_fresh,
        List.append_nil, ranOf_settled]

-- Blocks that are numbered in order are listed with the states at their indices.
theorem ranOf_zip {blocks : List CodeBlock} {states all : List BlockState} {first : Nat}
    (hnumbered : blocks.map CodeBlock.index = List.range' first states.length)
    (hstates : ∀ k, all[first + k]? = states[k]?) :
    ranOf (blocks.zip states) = (blocks.filter fun own => all[own.index]?.any BlockState.ran).map
      fun own => (own.index, own.content) := by
  induction states generalizing blocks first with
  | nil =>
      cases List.map_eq_nil_iff.mp hnumbered
      rfl
  | cons state rest ih =>
      rw [List.length_cons, List.range'_succ] at hnumbered
      obtain ⟨own, others, rfl, hindex, hothers⟩ := List.map_eq_cons_iff.mp hnumbered
      have hstate : all[own.index]? = some state := by
        rw [hindex]
        exact hstates 0
      have hrest := ih hothers fun k => by
        rw [Nat.add_right_comm]
        exact hstates (k + 1)
      rw [ranOf] at hrest ⊢
      cases hran : state.ran <;> simp [hstate, hran, hrest]

end Ran

-- What a run that has started with an empty session leaves in it, by notes of what its executor has
-- done.
structure Remembers (nodes : List Node) (notes : List Note) (states : List BlockState)
    (session : Session) : Prop where
  -- The executions are those of the blocks that have succeeded or failed, in document order.
  executed : notes.map (fun note => note.call.key) =
    ((blocksOf nodes).filter fun own => states[own.index]?.any BlockState.ran).map
      fun own => (own.index, own.content)
  -- Each starts from what the ones before it have bound, so nothing between them counts.
  given : ∀ before note behind, notes = before ++ note :: behind →
    ∀ name, note.call.given.binding? name = lastBound name before
  last : ∀ name, session.binding? name = lastBound name notes
  bound : ∀ name, (session.binding? name).isSome ↔ ∃ note ∈ notes, ∃ own ∈ note.binds, own.1 = name
  -- A binding is from the last call for its name, in the execution of the block that it names.
  owned : ∀ name binding, session.binding? name = some binding →
    (∃ before note behind front back, notes = before ++ note :: behind ∧
      note.binds = front ++ (name, binding.value) :: back ∧ note.call.index = binding.boundBy ∧
      (∀ own ∈ back, own.1 ≠ name) ∧ ∀ later ∈ behind, ∀ own ∈ later.binds, own.1 ≠ name) ∧
    ∃ own ∈ blocksOf nodes, own.index = binding.boundBy ∧
      (states[own.index]? = some .succeeded ∨ states[own.index]? = some .failed)

section Runs

variable {executor : Executor σ} {binds : String → Session → σ → List (String × Value)}

theorem remembers_of_noted {nodes : List Node} {notes : List Note} {states : List BlockState}
    {session : Session} (h : Noted .empty notes session)
    (hexecuted : notes.map (fun note => note.call.key) =
      ((blocksOf nodes).filter fun own => states[own.index]?.any BlockState.ran).map
        fun own => (own.index, own.content)) :
    Remembers nodes notes states session := by
  have hlast : ∀ name, session.binding? name = lastBound name notes := fun name => by
    rw [h.binding?_eq]
    exact Option.or_none
  refine ⟨hexecuted, fun before note behind hnotes => ?_, hlast, fun name => ?_,
    fun name binding hbinding => ?_⟩
  · rw [hnotes] at h
    exact h.given_eq
  · rw [hlast, Option.isSome_iff_ne_none, ne_eq, lastBound_eq_none_iff]
    simp only [not_forall, ne_eq, not_not, exists_prop]
  · rw [hlast] at hbinding
    obtain ⟨before, note, behind, front, back, hnotes, hbinds, hindex, hcalls⟩ :=
      exists_of_lastBound hbinding
    refine ⟨⟨before, note, behind, front, back, hnotes, hbinds, hindex, hcalls⟩, ?_⟩
    have hkey : note.call.key ∈ notes.map fun note => note.call.key :=
      List.mem_map_of_mem (by simp [hnotes])
    rw [hexecuted] at hkey
    obtain ⟨own, hown, hkey⟩ := List.mem_map.mp hkey
    obtain ⟨hmem, hran⟩ := List.mem_filter.mp hown
    refine ⟨own, hmem, (congrArg Prod.fst hkey).trans hindex, ?_⟩
    cases hstate : states[own.index]? with
    | none => simp [hstate] at hran
    | some state =>
        rw [hstate] at hran
        cases state with
        | succeeded => exact .inl rfl
        | failed => exact .inr rfl
        | pending | skipped | running => cases hran

variable (h : executor.BindsOnly binds)

include h

-- A tree notes the calls that its executor gets, one after the other.
theorem noted_tree (nodes : List Node) (progress : Progress (σ × List Note)) :
    ∃ notes, (traceTree (executor.noting binds) progress nodes).after.host.2 =
        progress.host.2 ++ notes ∧
      notes.map Note.call = callsOf (traceTree (executor.noting binds) progress nodes).events ∧
      Noted progress.session notes
        (traceTree (executor.noting binds) progress nodes).after.session := by
  refine @keeps_tree _ (executor.noting binds) (fun p events q => ∃ notes,
    q.host.2 = p.host.2 ++ notes ∧ notes.map Note.call = callsOf events ∧
      Noted p.session notes q.session) ?_ (fun p => ⟨[], (List.append_nil _).symm, rfl, .nil _⟩)
      (fun p _ _ => ⟨[], (List.append_nil _).symm, rfl, .nil _⟩) nodes (fun own _ p => ?_) progress
  · rintro p q r front back ⟨notes, hhost, hcalls, hnoted⟩ ⟨later, hlater, hmore, hnext⟩
    refine ⟨notes ++ later, ?_, ?_, hnoted.append hnext⟩
    · rw [hlater, hhost, List.append_assoc]
    · rw [List.map_append, hcalls, hmore, callsOf_append]
  · cases hexecutes : own.modifiers.executes with
    | false =>
        rw [traceBlock_skipped hexecutes]
        exact ⟨[], (List.append_nil _).symm, rfl, .nil _⟩
    | true =>
        rcases hstep : p.execute (executor.noting binds) own with ⟨execution, next⟩
        have hnext := h own.content (p.session.enter own.index) p.host.1
        rw [traceBlock_executed hexecutes hstep]
        refine ⟨[⟨p.call own execution next,
          binds own.content (p.session.enter own.index) p.host.1⟩], ?_, rfl, ?_⟩
        · have hhost : (next.settle own execution).2.host = next.host := by
            cases hfailure : execution.failure with
            | some failure => rw [settle_of_failure hfailure]; rfl
            | none => rw [settle_of_success hfailure]; rfl
          rw [hhost]
          cases hstep
          rfl
        · rw [session_settle]
          refine .cons rfl ?_ (.nil _)
          cases hstep
          exact hnext

theorem remembers_of_trace {registry : Registry} {document : Document} {classified : Classified}
    (hclassify : classify registry executor.language document = .ok classified) (host : σ)
    (stem : String) :
    let trace := traceDocument (executor.noting binds) classified (.start (host, []) stem)
    Remembers classified.document.nodes trace.after.host.2 trace.after.states
      trace.after.session := by
  intro trace
  obtain ⟨result, after, log, hplain, hlogged, hnumbered, -, hends⟩ :=
    exists_ends (executor.noting binds) hclassify (.start (host, []) stem)
  have htells := tells_document (executor.noting binds) classified (.start (host, []) stem)
  have hafter : after = trace.after := congrArg Prod.snd (hplain.symm.trans htells.plain)
  have hlog : log = callsOf trace.events :=
    congrArg (·.2.host.2) (hlogged.symm.trans (htells.logged []))
  obtain ⟨notes, hhost, hcalls, hnoted⟩ := noted_tree h classified.document.nodes
    ((Progress.start (host, []) stem).pending classified)
  have hlanguage : classified.language = (executor.noting binds).language :=
    language_of_classify hclassify
  rw [← traceDocument_of_language hlanguage] at hhost hcalls hnoted
  have hnotes : trace.after.host.2 = notes := hhost
  rw [hnotes]
  refine remembers_of_noted hnoted ?_
  have hkeys : notes.map (fun note => note.call.key) = log.map Call.key := by
    rw [hlog, ← hcalls, List.map_map]
    rfl
  rw [hkeys, hends.calls_eq, blocks_stationsOf, hafter]
  rw [hafter, List.range_eq_range'] at hnumbered
  exact ranOf_zip hnumbered fun k => by rw [Nat.zero_add]

end Runs

section Calc

theorem exists_bindAll_runStatement {session left : Session} {captured own : Calc.Captured}
    {statement : Calc.Statement}
    (h : Calc.runStatement session captured statement = (.ok left, own)) :
    ∃ binds, left = session.bindAll binds := by
  cases statement with
  | assign name value line =>
      unfold Calc.runStatement at h
      rcases hvalue : (Calc.evaluate Calc.builtins session value).run captured with
        ⟨_ | result, after⟩
      · simp only [hvalue, Except.map] at h
        cases h
      · simp only [hvalue, Except.map] at h
        cases h
        exact ⟨[(name, result)], rfl⟩
  | run value line =>
      unfold Calc.runStatement at h
      rcases hvalue : (Calc.evaluate Calc.builtins session value).run captured with
        ⟨_ | result, after⟩
      · simp only [hvalue, Except.map] at h
        cases h
      · simp only [hvalue, Except.map] at h
        cases h
        exact ⟨[], rfl⟩

theorem exists_bindAll_runStatements (session : Session) (captured : Calc.Captured)
    (script : Calc.Script) :
    ∃ binds, (Calc.runStatements session captured script).2 = session.bindAll binds := by
  induction script generalizing session captured with
  | nil => exact ⟨[], rfl⟩
  | cons statement rest ih =>
      rw [Calc.runStatements]
      rcases hstatement : Calc.runStatement session captured statement with ⟨_ | left, own⟩
      · exact ⟨[], rfl⟩
      · obtain ⟨front, rfl⟩ := exists_bindAll_runStatement hstatement
        obtain ⟨back, hback⟩ := ih (session.bindAll front) own
        refine ⟨front ++ back, hback.trans ?_⟩
        simp only [Session.bindAll, List.foldl_append]

-- The calc executor changes the session by what its statements bind.
theorem exists_calc_bindsOnly : ∃ binds, Executor.calc.BindsOnly binds := by
  have hcalc : ∀ code session (host : Unit), ∃ binds,
      (Executor.calc.execute code session host).2.1 = session.bindAll binds := by
    intro code session host
    change ∃ binds, (Calc.execute code session).2 = session.bindAll binds
    unfold Calc.execute
    split
    · exact exists_bindAll_runStatements session .none _
    · exact ⟨[], rfl⟩
  choose binds hbinds using hcalc
  exact ⟨binds, hbinds⟩

end Calc

-- A run of a classified document from the start, whatever its executor does as long as it changes
-- the session with `bind` alone. With notes of the calls it ends in the same way, and the session
-- holds for each name what the last of them has given it, on behalf of the block that was running.
theorem bindings_remember_blocks {registry : Registry} {language : String} {document : Document}
    {classified : Classified}
    (hclassify : classify registry language document = .ok classified) {executor : Executor σ}
    {binds : String → Session → σ → List (String × Value)} (hbinds : executor.BindsOnly binds)
    (host : σ) (stem : String) :
    ∃ result after notes,
      (runDocument executor classified).run (.start host stem) = (result, after) ∧
      (runDocument (executor.noting binds) classified).run
        ((Progress.start host stem).withNotes []) = (result, after.withNotes notes) ∧
      Remembers classified.document.nodes notes after.states after.session := by
  have hover := traceDocument_over (erases_noting executor binds) classified
    ((Progress.start host stem).withNotes [])
  have hplain := (tells_document executor classified (.start host stem)).plain
  have hnoted := (tells_document (executor.noting binds) classified
    ((Progress.start host stem).withNotes [])).plain
  have hstart : ((Progress.start host stem).withNotes []).over Prod.fst = .start host stem := rfl
  rw [hstart] at hover
  rw [hover] at hplain
  refine ⟨_, _, _, hplain, hnoted, ?_⟩
  by_cases hlanguage : language = executor.language
  · subst hlanguage
    exact remembers_of_trace hbinds hclassify host stem
  · have hother : ¬ classified.language = (executor.noting binds).language := by
      rwa [language_of_classify hclassify]
    rw [traceDocument, if_neg hother]
    refine remembers_of_noted (.nil _) ?_
    exact (List.map_eq_nil_iff.mpr (List.filter_eq_nil_iff.mpr fun own _ => by
      simp [Trace.over, Progress.over, Progress.withNotes, Progress.start])).symm

theorem stopper_bindsOnly : stopper.BindsOnly fun _ _ _ => [("x", .bool true)] :=
  fun _ _ _ => rfl

-- Two blocks have run, one is skipped, two are pending, and the one that has failed owns the name.
theorem failed_block_owns_binding :
    stopper.BindsOnly (fun _ _ _ => [("x", .bool true)]) ∧
    (∃ binds, Executor.calc.BindsOnly binds) ∧
    classify .standard "calc" stopped = .ok ⟨stopped, "calc"⟩ ∧
    ∃ notes session,
      Remembers stopped.nodes notes [.succeeded, .skipped, .pending, .failed, .pending] session ∧
      session.binding? "x" = some ⟨.bool true, 3⟩ := by
  obtain ⟨result, after, notes, hplain, -, h⟩ :=
    bindings_remember_blocks classify_stopped stopper_bindsOnly () "block"
  have hstates : after.states = [.succeeded, .skipped, .pending, .failed, .pending] := by
    rw [← run_stopped.2, hplain]
  have hbinding : after.session.binding? "x" = some ⟨.bool true, 3⟩ := by
    have hafter : after = ((runDocument stopper ⟨stopped, "calc"⟩).run (.start () "block")).2 := by
      rw [hplain]
    rw [hafter]
    cbv
  exact ⟨stopper_bindsOnly, exists_calc_bindsOnly, classify_stopped, notes, after.session,
    hstates ▸ h, hbinding⟩

end LiveDoc
