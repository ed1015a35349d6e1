import LiveDoc.Proofs.Calc.Failures
import LiveDoc.Proofs.Calc.Production

namespace LiveDoc.Calc

-- What a statement does to a session once its expression has a value.
def Statement.leaves (session : Session) (value : Value) : Statement → Session
  | .assign name _ _ => session.bind name value
  | .run _ _ => session

-- The value that a statement gives a name.
def Statement.gives? (name : String) (value : Value) : Statement → Option Value
  | .assign other _ _ => if other = name then some value else none
  | .run _ _ => none

-- A statement that has run, the calls it made and the value of its expression.
structure Done where
  statement : Statement
  made : List Invocation
  value : Value

-- Statements run one after the other, and this is the session they leave.
inductive Passes : Session → List Done → Session → Prop
  | nil (session : Session) : Passes session [] session
  | cons {session last : Session} {done : Done} {rest : List Done} :
      Makes session done.statement.value done.made (.ok done.value) →
      Passes (done.statement.leaves session done.value) rest last →
      Passes session (done :: rest) last

def statements (dones : List Done) : Script := dones.map (·.statement)

-- All calls of statements that have run, in order.
def calls (dones : List Done) : List Invocation := dones.flatMap (·.made)

-- The values that a name was given, in order.
def given (name : String) (dones : List Done) : List Value :=
  dones.filterMap fun done => done.statement.gives? name done.value

theorem getLast?_toList {α : Type} (a : Option α) : a.toList.getLast? = a := by
  cases a <;> rfl

theorem given_cons (name : String) (done : Done) (rest : List Done) :
    given name (done :: rest) =
      (done.statement.gives? name done.value).toList ++ given name rest := by
  rw [given, List.filterMap_cons]
  cases done.statement.gives? name done.value <;> rfl

section Passes

variable {session left : Session} {dones : List Done}

theorem leaves_current (session : Session) (value : Value) (statement : Statement) :
    (statement.leaves session value).current = session.current := by
  cases statement <;> rfl

theorem Passes.current_eq (h : Passes session dones left) : left.current = session.current := by
  induction h with
  | nil => rfl
  | cons _ _ ih => rw [ih, leaves_current]

theorem leaves_binding? (session : Session) (value : Value) (statement : Statement)
    (name : String) :
    (statement.leaves session value).binding? name =
      ((statement.gives? name value).map (⟨·, session.current⟩)).or (session.binding? name) := by
  cases statement with
  | run expr line => rfl
  | assign other expr line =>
      rw [Statement.leaves, Statement.gives?]
      by_cases h : other = name
      · rw [if_pos h, h, Session.binding?_bind_self]
        rfl
      · rw [if_neg h, Session.binding?_bind_of_ne session (Ne.symm h)]
        rfl

-- A name has the value it was given last, from the block that runs, or what it had before.
theorem Passes.binding?_eq (h : Passes session dones left) (name : String) :
    left.binding? name =
      ((given name dones).getLast?.map (⟨·, session.current⟩)).or (session.binding? name) := by
  induction h with
  | nil => rfl
  | @cons session last done rest _ _ ih =>
      have hlast : (given name (done :: rest)).getLast? =
          (given name rest).getLast?.or (done.statement.gives? name done.value) := by
        rw [given_cons, List.getLast?_append, getLast?_toList]
      rw [ih, leaves_binding?, leaves_current, hlast, Option.map_or, Option.or_assoc]

end Passes

section Statements

variable {session : Session} {captured : Captured}

theorem Makes.runStatement {statement : Statement} {made : List Invocation}
    {result : Except ScriptError Value} (h : Makes session statement.value made result)
    (hread : statement.value.Derivable) (captured : Captured) :
    runStatement session captured statement =
      (result.map (statement.leaves session), captured ++ gathered made) := by
  cases statement with
  | assign name value line =>
      rw [Calc.runStatement]
      dsimp only [Statement.value] at h hread
      rw [h.run hread]
      rfl
  | run value line =>
      rw [Calc.runStatement]
      dsimp only [Statement.value] at h hread
      rw [h.run hread]
      rfl

theorem calls_cons (done : Done) (rest : List Done) :
    calls (done :: rest) = done.made ++ calls rest := List.flatMap_cons

-- Statements run up to the first one that fails. What has been produced before comes first.
theorem exists_passes {script : Script} (hread : ∀ statement ∈ script, statement.value.Derivable)
    (session : Session) :
    ∃ dones left, Passes session dones left ∧
      ((script = statements dones ∧ ∀ captured, runStatements session captured script =
        (⟨captured ++ gathered (calls dones), none⟩, left)) ∨
      ∃ statement later made error, script = statements dones ++ statement :: later ∧
        Makes left statement.value made (.error error) ∧
        ∀ captured, runStatements session captured script =
          (⟨captured ++ gathered (calls dones ++ made), some ⟨some statement.line, error⟩⟩,
            left)) := by
  induction script generalizing session with
  | nil =>
      refine ⟨[], session, .nil session, .inl ⟨rfl, fun captured => ?_⟩⟩
      rw [runStatements, calls, List.flatMap_nil, gathered, Captured.append_none]
  | cons statement rest ih =>
      obtain ⟨made, result, hmakes⟩ := exists_makes session statement.value
      have hstep := hmakes.runStatement (hread statement (List.mem_cons_self ..))
      cases result with
      | error error =>
          refine ⟨[], session, .nil session,
            .inr ⟨statement, rest, made, error, rfl, hmakes, fun captured => ?_⟩⟩
          rw [runStatements, hstep]
          rfl
      | ok value =>
          obtain ⟨dones, left, hpasses, hends⟩ :=
            ih (fun own hown => hread own (List.mem_cons_of_mem _ hown))
              (statement.leaves session value)
          have hnext : ∀ captured, runStatements session captured (statement :: rest) =
              runStatements (statement.leaves session value) (captured ++ gathered made) rest := by
            intro captured
            rw [runStatements, hstep]
            rfl
          refine ⟨⟨statement, made, value⟩ :: dones, left, .cons hmakes hpasses, ?_⟩
          rcases hends with ⟨rfl, hrun⟩ | ⟨failing, later, last, error, rfl, hfails, hrun⟩
          · refine .inl ⟨rfl, fun captured => ?_⟩
            rw [hnext, hrun, calls_cons, gathered_append, Captured.append_assoc]
          · refine .inr ⟨failing, later, last, error, rfl, hfails, fun captured => ?_⟩
            rw [hnext, hrun, calls_cons, List.append_assoc, gathered_append made,
              Captured.append_assoc]

-- What has been produced before stays in front and plays no part.
theorem runStatements_behind {script : Script}
    (hread : ∀ statement ∈ script, statement.value.Derivable) (session : Session)
    (captured : Captured) :
    runStatements session captured script =
      let (execution, left) := runStatements session .none script
      (⟨captured ++ execution.captured, execution.failure⟩, left) := by
  obtain ⟨dones, left, -, ⟨-, hrun⟩ | ⟨statement, later, made, error, -, -, hrun⟩⟩ :=
    exists_passes hread session
  all_goals
    rw [hrun, hrun]
    simp only [Captured.none_append]

end Statements

end LiveDoc.Calc
