import LiveDoc.Document.Classified
import LiveDoc.Run.Progress
import Mathlib.Data.List.Basic

namespace LiveDoc

variable {σ : Type}

-- What an executor was given by a run and what came of it.
structure Call where
  code : String
  given : Calc.Session
  execution : Calc.Execution
  left : Calc.Session

-- The session that a call is given names the block that is run.
def Call.index (call : Call) : Nat := call.given.current

def Call.key (call : Call) : Nat × String := (call.index, call.code)

-- The same executor, with the calls it has had as part of its own state.
def Executor.logged (executor : Executor σ) : Executor (σ × List Call) where
  language := executor.language
  execute code session state :=
    let (execution, left, host) := executor.execute code session state.1
    (execution, left, host, state.2 ++ [⟨code, session, execution, left⟩])

def Progress.withLog (progress : Progress σ) (log : List Call) : Progress (σ × List Call) :=
  ⟨(progress.host, log), progress.session, progress.store, progress.states⟩

@[simp] theorem mark_withLog (progress : Progress σ) (log : List Call) (index : Nat)
    (state : BlockState) :
    (progress.withLog log).mark index state = (progress.mark index state).withLog log := rfl

-- The session after some calls.
def sessionAfter (start : Calc.Session) (log : List Call) : Calc.Session :=
  log.foldl (fun _ call => call.left) start

-- The session where `position` blocks are behind: what the calls for those blocks have left.
def sessionAt (start : Calc.Session) (log : List Call) (position : Nat) : Calc.Session :=
  sessionAfter start (log.filter fun call => call.index < position)

theorem sessionAfter_append (start : Calc.Session) (front back : List Call) :
    sessionAfter start (front ++ back) = sessionAfter (sessionAfter start front) back :=
  List.foldl_append

theorem sessionAt_append (start : Calc.Session) {front back : List Call} {position : Nat}
    (hfront : ∀ call ∈ front, call.index < position)
    (hback : ∀ call ∈ back, position ≤ call.index) :
    sessionAt start (front ++ back) position = sessionAfter start front := by
  have hkept : front.filter (fun call => call.index < position) = front :=
    List.filter_eq_self.mpr fun call hcall => by simpa using hfront call hcall
  have hdropped : back.filter (fun call => call.index < position) = [] :=
    List.filter_eq_nil_iff.mpr fun call hcall => by simpa using hback call hcall
  rw [sessionAt, List.filter_append, hkept, hdropped, List.append_nil]

-- A condition of a tree and the number of blocks before it.
structure Condition where
  guard : Calc.Guard
  source : String
  span : Span
  position : Nat

-- What a run comes to in a tree, each time with the conditions around it, the innermost first.
inductive Station where
  | block (around : List Condition) (block : CodeBlock)
  | condition (around : List Condition) (own : Condition)

def Station.around : Station → List Condition
  | .block around _ => around
  | .condition around _ => around

def Station.block? : Station → Option CodeBlock
  | .block _ own => some own
  | .condition _ _ => none

mutual

def Node.stations (around : List Condition) (position : Nat) : Node → List Station
  | .code block => [.block around block]
  | .conditional guard source children span =>
      .condition around ⟨guard, source, span, position⟩ ::
        stationsOf (⟨guard, source, span, position⟩ :: around) position children
  | _ => []

-- The stations of nodes in document order, with `position` blocks before the first.
def stationsOf (around : List Condition) (position : Nat) : List Node → List Station
  | [] => []
  | node :: rest =>
      node.stations around position ++ stationsOf around (position + node.blocks.length) rest

end

section Verdicts

variable (start : Calc.Session) (log : List Call)

-- What a condition says where it stands in a run that starts from a session and makes calls.
def Condition.verdict (condition : Condition) : Except RunError Bool :=
  evaluateGuard condition.guard condition.source condition.span
    (sessionAt start log condition.position)

def Condition.holds (condition : Condition) : Bool :=
  match condition.verdict start log with
  | .ok value => value
  | .error _ => false

-- All conditions around a station are true when they are reached.
def allHold (around : List Condition) : Bool := around.all (Condition.holds start log)

-- One of them is reached and false.
def InFalseBranch (around : List Condition) : Prop :=
  ∃ inner own outer, around = inner ++ own :: outer ∧ allHold start log outer ∧
    own.verdict start log = .ok false

-- The call that a station stands for, if it is live.
def Station.call? : Station → Option (Nat × String)
  | .block around own =>
      if allHold start log around && own.modifiers.executes then
        some (own.index, own.content)
      else none
  | .condition _ _ => none

-- The state that a run leaves a block in when it has got past it.
def Station.settled? : Station → Option BlockState
  | .block around own => some <|
      if !allHold start log around then .pending
      else if own.modifiers.executes then .succeeded
      else .skipped
  | .condition _ _ => none

-- A run gets past a station: it is live and nothing fails at it, or a condition around is false.
def Station.Passed : Station → Prop
  | .block around own =>
      if allHold start log around then
        own.modifiers.executes → ∃ call ∈ log, call.key = (own.index, own.content) ∧
          call.execution.failure = none
      else InFalseBranch start log around
  | .condition around own =>
      if allHold start log around then ∃ value, own.verdict start log = .ok value
      else InFalseBranch start log around

end Verdicts

-- The state of a block that a run has not come to.
def Station.fresh? (station : Station) : Option BlockState :=
  station.block?.map fun _ => .pending

-- How a run comes to its end over stations: the calls it makes, the states of the blocks in
-- document order, and its result. `log` says what the calls have come to.
inductive Ends {α : Type} (start : Calc.Session) (log : List Call) :
    List Station → List (Nat × String) → List BlockState → Except RunError α → Prop
  | all {passed : List Station} (result : α) :
      (∀ station ∈ passed, station.Passed start log) →
      Ends start log passed (passed.filterMap (Station.call? start log))
        (passed.filterMap (Station.settled? start log)) (.ok result)
  | block {passed left : List Station} {around : List Condition} {own : CodeBlock} {call : Call}
      {failure : Calc.Failure} :
      (∀ station ∈ passed, station.Passed start log) →
      allHold start log around → own.modifiers.executes → call ∈ log →
      call.key = (own.index, own.content) → call.execution.failure = some failure →
      Ends start log (passed ++ .block around own :: left)
        (passed.filterMap (Station.call? start log) ++ [call.key])
        (passed.filterMap (Station.settled? start log) ++ .failed :: left.filterMap Station.fresh?)
        (.error (.block own.index own.span (failure.line.map (own.span.line + ·))
          call.execution.captured.output failure.error))
  | condition {passed left : List Station} {around : List Condition} {own : Condition}
      {error : RunError} :
      (∀ station ∈ passed, station.Passed start log) →
      allHold start log around → own.verdict start log = .error error →
      Ends start log (passed ++ .condition around own :: left)
        (passed.filterMap (Station.call? start log))
        (passed.filterMap (Station.settled? start log) ++ left.filterMap Station.fresh?)
        (.error error)

section Ends

variable {start : Calc.Session} {log : List Call} {α β : Type} {stations more : List Station}
  {calls moreCalls : List (Nat × String)} {states moreStates : List BlockState}

theorem Ends.append {first : α} {result : Except RunError β}
    (h : Ends start log stations calls states (.ok first))
    (h' : Ends start log more moreCalls moreStates result) :
    Ends start log (stations ++ more) (calls ++ moreCalls) (states ++ moreStates) result := by
  cases h with
  | all _ hpassed =>
      have hboth : ∀ {others : List Station}, (∀ s ∈ others, s.Passed start log) →
          ∀ s ∈ stations ++ others, s.Passed start log := fun hothers s hs =>
        (List.mem_append.mp hs).elim (hpassed s) (hothers s)
      cases h' with
      | all _ hmore =>
          rw [← List.filterMap_append, ← List.filterMap_append]
          exact .all _ (hboth hmore)
      | block hmore hlive hexecutes hcall hkey hfailure =>
          rw [← List.append_assoc, ← List.append_assoc, ← List.append_assoc,
            ← List.filterMap_append, ← List.filterMap_append]
          exact .block (hboth hmore) hlive hexecutes hcall hkey hfailure
      | condition hmore hlive hverdict =>
          rw [← List.append_assoc, ← List.append_assoc, ← List.filterMap_append,
            ← List.filterMap_append]
          exact .condition (hboth hmore) hlive hverdict

-- What comes after the end is not touched.
theorem Ends.stop {error : RunError} (more : List Station)
    (h : Ends start log stations calls states (.error error : Except RunError α)) :
    Ends start log (stations ++ more) calls (states ++ more.filterMap Station.fresh?)
      (.error error : Except RunError β) := by
  cases h with
  | block hpassed hlive hexecutes hcall hkey hfailure =>
      rw [List.append_assoc, List.append_assoc, List.cons_append, List.cons_append,
        ← List.filterMap_append]
      exact .block hpassed hlive hexecutes hcall hkey hfailure
  | condition hpassed hlive hverdict =>
      rw [List.append_assoc, List.append_assoc, List.cons_append, ← List.filterMap_append]
      exact .condition hpassed hlive hverdict

theorem allHold_of_inFalseBranch {around : List Condition} (h : InFalseBranch start log around) :
    allHold start log around = false := by
  obtain ⟨inner, own, outer, rfl, -, hverdict⟩ := h
  refine List.all_eq_false.mpr ⟨own, List.mem_append_right _ (List.mem_cons_self ..), ?_⟩
  simp [Condition.holds, hverdict]

-- Nothing happens in a branch that is false.
theorem Ends.dead (result : α)
    (h : ∀ station ∈ stations, InFalseBranch start log station.around) :
    Ends start log stations [] (stations.filterMap Station.fresh?) (.ok result) := by
  have hcalls : stations.filterMap (Station.call? start log) = [] := by
    refine List.filterMap_eq_nil_iff.mpr fun station hstation => ?_
    cases station with
    | block around own =>
        have hdead : allHold start log around = false := allHold_of_inFalseBranch (h _ hstation)
        simp [Station.call?, hdead]
    | condition around own => rfl
  have hstates : stations.filterMap (Station.settled? start log) =
      stations.filterMap Station.fresh? := by
    refine List.filterMap_congr fun station hstation => ?_
    cases station with
    | block around own =>
        have hdead : allHold start log around = false := allHold_of_inFalseBranch (h _ hstation)
        simp [Station.settled?, Station.fresh?, Station.block?, hdead]
    | condition around own => rfl
  rw [← hcalls, ← hstates]
  refine .all result fun station hstation => ?_
  have hdead : ¬ allHold start log station.around = true := by
    rw [allHold_of_inFalseBranch (h _ hstation)]
    exact Bool.false_ne_true
  cases station with
  | block around own => exact (if_neg hdead).mpr (h _ hstation)
  | condition around own => exact (if_neg hdead).mpr (h _ hstation)

section Live

variable {around : List Condition} (hlive : allHold start log around = true)

include hlive

theorem Ends.skipped {own : CodeBlock} (result : α) (h : own.modifiers.executes = false) :
    Ends start log [.block around own] [] [.skipped] (.ok result) := by
  have hends := @Ends.all _ start log [Station.block around own] result fun station hstation => by
    cases List.mem_singleton.mp hstation
    simp [Station.Passed, hlive, h]
  simpa [Station.call?, Station.settled?, hlive, h] using hends

theorem Ends.succeeded {own : CodeBlock} {call : Call} (result : α)
    (h : own.modifiers.executes = true) (hcall : call ∈ log)
    (hkey : call.key = (own.index, own.content)) (hnone : call.execution.failure = none) :
    Ends start log [.block around own] [call.key] [.succeeded] (.ok result) := by
  have hends := @Ends.all _ start log [Station.block around own] result fun station hstation => by
    cases List.mem_singleton.mp hstation
    rw [Station.Passed, if_pos hlive]
    exact fun _ => ⟨call, hcall, hkey, hnone⟩
  simpa [Station.call?, Station.settled?, hlive, h, hkey] using hends

theorem Ends.decided {own : Condition} {value : Bool} (result : α)
    (h : own.verdict start log = .ok value) :
    Ends start log [.condition around own] [] [] (.ok result) := by
  refine @Ends.all _ start log [Station.condition around own] result fun station hstation => ?_
  cases List.mem_singleton.mp hstation
  rw [Station.Passed, if_pos hlive]
  exact ⟨value, h⟩

end Live

end Ends

mutual

-- The stations of a tree show all its blocks, in document order.
theorem blocks_stations (around : List Condition) (position : Nat) (node : Node) :
    (node.stations around position).filterMap Station.block? = node.blocks := by
  match node with
  | .prose _ => rfl
  | .directive _ => rfl
  | .code _ => rfl
  | .conditional guard source children span =>
      rw [Node.stations, Node.blocks, List.filterMap_cons_none rfl]
      exact blocks_stationsOf _ _ children

theorem blocks_stationsOf (around : List Condition) (position : Nat) (nodes : List Node) :
    (stationsOf around position nodes).filterMap Station.block? = blocksOf nodes := by
  match nodes with
  | [] => rfl
  | node :: rest =>
      rw [stationsOf, List.filterMap_append, blocks_stations, blocks_stationsOf, blocksOf]

end

theorem filterMap_fresh? (stations : List Station) :
    stations.filterMap Station.fresh? =
      List.replicate (stations.filterMap Station.block?).length .pending := by
  change stations.filterMap (fun station => station.block?.map fun _ => BlockState.pending) = _
  rw [← List.map_filterMap, List.map_const']

theorem fresh_stationsOf (around : List Condition) (position : Nat) (nodes : List Node) :
    (stationsOf around position nodes).filterMap Station.fresh? =
      List.replicate (blocksOf nodes).length .pending := by
  rw [filterMap_fresh?, blocks_stationsOf]

theorem length_filterMap_settled? (start : Calc.Session) (log : List Call)
    (stations : List Station) :
    (stations.filterMap (Station.settled? start log)).length =
      (stations.filterMap Station.block?).length := by
  induction stations with
  | nil => rfl
  | cons station rest ih =>
      cases station with
      | block around own => exact congrArg (· + 1) ih
      | condition around own => exact ih

mutual

theorem around_suffix_node {around : List Condition} {position : Nat} {node : Node}
    {station : Station} (h : station ∈ node.stations around position) :
    around <:+ station.around := by
  match node with
  | .prose _ => cases h
  | .directive _ => cases h
  | .code _ =>
      cases List.mem_singleton.mp h
      exact List.suffix_rfl
  | .conditional guard source children span =>
      rcases List.mem_cons.mp h with rfl | h
      · exact List.suffix_rfl
      · exact (List.suffix_cons _ _).trans (around_suffix_nodes h)

theorem around_suffix_nodes {around : List Condition} {position : Nat} {nodes : List Node}
    {station : Station} (h : station ∈ stationsOf around position nodes) :
    around <:+ station.around := by
  match nodes with
  | [] => cases h
  | node :: rest =>
      rcases List.mem_append.mp h with h | h
      · exact around_suffix_node h
      · exact around_suffix_nodes h

end

end LiveDoc
