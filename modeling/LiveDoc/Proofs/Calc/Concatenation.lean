import LiveDoc.Proofs.Calc.Atomicity
import LiveDoc.Proofs.Calc.Relocation
import LiveDoc.Proofs.Calc.ScriptLines

namespace LiveDoc.Calc

open Text

-- The failure of a block that so many lines stand above.
def Failure.shift (count : Nat) (failure : Failure) : Failure :=
  { failure with line := failure.line.map (· + count) }

mutual

theorem bare_shift (amount : Nat) (e : Expr) : (e.shift amount).bare = e.bare := by
  match e with
  | .var _ _ | .text _ | .number _ | .bool _ | .unit => rfl
  | .call _ _ arguments =>
      rw [Expr.shift, Expr.bare, Expr.bare, bareList_shiftList amount arguments]
  | .unary _ operand => rw [Expr.shift, Expr.bare, Expr.bare, bare_shift amount operand]
  | .binary _ left right =>
      rw [Expr.shift, Expr.bare, Expr.bare, bare_shift amount left, bare_shift amount right]

theorem bareList_shiftList (amount : Nat) (es : List Expr) :
    Expr.bareList (Expr.shiftList amount es) = Expr.bareList es := by
  match es with
  | [] => rfl
  | e :: rest =>
      rw [Expr.shiftList, Expr.bareList, Expr.bareList, bare_shift amount e,
        bareList_shiftList amount rest]

end

-- A line that cannot be read, wherever it stands.
def Unreadable (text : List Char) : Prop :=
  ∃ line offset error, parseStatement line offset (trimEnd isLineEnd text) = .error error

section Scripts

variable {line offset : Nat} {ls : List (List Char)} {script : Script}

-- A line that can be read in one place can be read in every other.
theorem not_unreadable_of_parseStatement {text : List Char} {own : Option Statement}
    (h : parseStatement line offset (trimEnd isLineEnd text) = .ok own) : ¬Unreadable text := by
  rintro ⟨line', offset', error, herror⟩
  have here := @shifts_parseStatement line offset 0 0 (trimEnd isLineEnd text)
  have there := @shifts_parseStatement line' offset' 0 0 (trimEnd isLineEnd text)
  rw [Nat.zero_add, Nat.zero_add, h] at here
  rw [Nat.zero_add, Nat.zero_add, herror] at there
  generalize parseStatement 0 0 (trimEnd isLineEnd text) = first at here there
  cases here
  cases there

theorem not_unreadable_of_parseLines (h : parseLines line offset ls = .ok script) :
    ∀ text ∈ ls, ¬Unreadable text := by
  induction ls generalizing line offset script with
  | nil => exact nofun
  | cons text more ih =>
      obtain ⟨own, rest, hown, hrest, -⟩ := parseLines_cons_eq_ok h
      exact List.forall_mem_cons.mpr ⟨not_unreadable_of_parseStatement hown, ih hrest⟩

theorem exists_parseLines (h : ∀ text ∈ ls, ¬Unreadable text) (line offset : Nat) :
    ∃ script, parseLines line offset ls = .ok script := by
  cases hlines : parseLines line offset ls with
  | ok script => exact ⟨script, rfl⟩
  | error error =>
      obtain ⟨count, text, before, front, back, rfl, -, -, herror⟩ := exists_readsAt_of_error hlines
      exact (h text (by simp) ⟨_, _, _, herror⟩).elim

end Scripts

section Runs

variable {session : Session}

theorem runStatement_shift (lines amount : Nat) (captured : Captured) (statement : Statement) :
    runStatement session captured (statement.shift lines amount) =
      runStatement session captured statement := by
  cases statement <;>
    rw [Statement.shift, runStatement, runStatement,
      evaluate_of_bare_eq builtins session (bare_shift amount _)]

-- Further down, a script does the same. Only its failure names another line.
theorem runStatements_shift (lines amount : Nat) (captured : Captured) (script : Script) :
    runStatements session captured (script.map (·.shift lines amount)) =
      let (execution, left) := runStatements session captured script
      (⟨execution.captured, execution.failure.map (·.shift lines)⟩, left) := by
  induction script generalizing session captured with
  | nil => rfl
  | cons statement rest ih =>
      rw [List.map_cons, runStatements, runStatements, runStatement_shift]
      split
      · exact ih _
      · cases statement <;> rfl

-- Statements behind others that do not fail start where these end.
theorem runStatements_append {first : Script} {captured own : Captured} {middle : Session}
    (h : runStatements session captured first = (⟨own, none⟩, middle)) (second : Script) :
    runStatements session captured (first ++ second) = runStatements middle own second := by
  induction first generalizing session captured with
  | nil =>
      cases h
      rfl
  | cons statement rest ih =>
      rw [List.cons_append, runStatements]
      rw [runStatements] at h
      split at h
      · exact ih h
      · cases h

end Runs

section Execution

variable {session : Session}

theorem execute_of_ok {code : String} {script : Script} (h : parseScript code.toList = .ok script)
    (session : Session) : execute code session = runStatements session .none script := by
  rw [execute, h]

theorem derivable_of_parseLines {line offset : Nat} {ls : List (List Char)} {script : Script}
    (h : parseLines line offset ls = .ok script) :
    ∀ statement ∈ script, statement.value.Derivable :=
  fun _ hstatement => derives_of_mem_parseLines h hstatement

-- Code with a line that cannot be read runs nothing.
theorem execute_of_unreadable {code : String}
    (h : ∃ text ∈ lines code.toList, Unreadable text) (session : Session) :
    ∃ count text before error, ReadsAt 1 0 (lines code.toList) count text before (.error error) ∧
      execute code session =
        (⟨.none, some ⟨some (count + 1), .badSyntax error.fault⟩⟩, session) := by
  cases hscript : parseScript code.toList with
  | ok script =>
      obtain ⟨text, htext, hunreadable⟩ := h
      exact (not_unreadable_of_parseLines hscript text htext hunreadable).elim
  | error error =>
      obtain ⟨count, text, before, hreads⟩ := exists_readsAt_of_error hscript
      refine ⟨count, text, before, error, hreads, ?_⟩
      obtain ⟨_, _, _, _, _, herror⟩ := hreads
      simp only [execute, hscript, line_of_parseStatement_eq_error herror, Nat.add_comm 1]

-- Code whose lines can all be read runs up to the first statement that fails.
theorem exists_execute {code : String} {script : Script}
    (hscript : parseScript code.toList = .ok script) (session : Session) :
    ∃ dones left, Passes session dones left ∧
      (script = statements dones ∧
        execute code session = (⟨gathered (calls dones), none⟩, left) ∨
      ∃ count text statement later made error,
        ReadsAt 1 0 (lines code.toList) count text (statements dones) (.ok (some statement)) ∧
        script = statements dones ++ statement :: later ∧
        Makes left statement.value made (.error error) ∧
        execute code session =
          (⟨gathered (calls dones ++ made), some ⟨some (count + 1), error⟩⟩, left)) := by
  obtain ⟨dones, left, hpasses, ⟨hall, hrun⟩ |
    ⟨statement, later, made, error, rfl, hfails, hrun⟩⟩ :=
      exists_passes (derivable_of_parseLines hscript) session
  · refine ⟨dones, left, hpasses, .inl ⟨hall, ?_⟩⟩
    rw [execute_of_ok hscript, hrun, Captured.none_append]
  · obtain ⟨count, text, hreads⟩ := exists_readsAt_of_ok hscript
    refine ⟨dones, left, hpasses, .inr
      ⟨count, text, statement, later, made, error, hreads, rfl, hfails, ?_⟩⟩
    obtain ⟨_, _, _, _, _, hstatement⟩ := hreads
    have hline := (whole_of_parseStatement hstatement).1
    rw [execute_of_ok hscript, hrun, Captured.none_append, hline, Nat.add_comm]

theorem execute_append {a b : String} {script : Script} (ha : a.toList.getLast? = some '\n')
    (hscript : parseScript (a ++ b).toList = .ok script)
    (hrun : (execute a session).1.failure = none) :
    let first := execute a session
    let second := execute b first.2
    execute (a ++ b) session = (⟨first.1.captured ++ second.1.captured,
      second.1.failure.map (·.shift (a.toList.count '\n'))⟩, second.2) := by
  obtain ⟨later, happend, hlater⟩ := shifts_parseScript (.inr ha) b.toList
  obtain ⟨first, hfirst, second, hsecond, rfl⟩ : ∃ first, parseScript a.toList = .ok first ∧
      ∃ second, parseScript b.toList = .ok second ∧
        script = first ++ second.map (·.shift (a.toList.count '\n') (byteCount a.toList)) := by
    rw [String.toList_append, happend] at hscript
    cases hfirst : parseScript a.toList with
    | error error =>
        rw [hfirst] at hscript
        cases hscript
    | ok first =>
        rw [hfirst] at hscript
        generalize parseScript b.toList = own at hlater
        cases hlater with
        | error error => cases hscript
        | @ok second _ hsecond =>
            cases hscript
            exact ⟨first, rfl, second, rfl, by rw [hsecond]⟩
  rw [execute_of_ok hscript, execute_of_ok hfirst]
  rw [execute_of_ok hfirst] at hrun
  rcases hran : runStatements session .none first with ⟨⟨own, failure⟩, middle⟩
  rw [hran] at hrun
  cases hrun
  dsimp only
  rw [runStatements_append hran, runStatements_shift, execute_of_ok hsecond,
    runStatements_behind (derivable_of_parseLines hsecond)]

end Execution

-- How code runs. With a line that cannot be read nothing runs. Otherwise its statements run up to
-- the first that fails: the session holds what the ones before it have bound, the failure names its
-- line, and what has been produced is that of the calls that have completed, in it and before it.
-- Code behind other code that does not fail runs as it does alone, from where the other ends.
theorem blocks_run_atomically (session : Session) :
    (∀ code : String, (∃ text ∈ lines code.toList, Unreadable text) →
      ∃ count text before error,
        ReadsAt 1 0 (lines code.toList) count text before (.error error) ∧
        execute code session =
          (⟨.none, some ⟨some (count + 1), .badSyntax error.fault⟩⟩, session)) ∧
    (∀ code : String, (∀ text ∈ lines code.toList, ¬Unreadable text) →
      ∃ script dones left, parseScript code.toList = .ok script ∧ Passes session dones left ∧
        left.current = session.current ∧
        (∀ name, left.binding? name =
          ((given name dones).getLast?.map (⟨·, session.current⟩)).or (session.binding? name)) ∧
        (script = statements dones ∧
          execute code session = (⟨gathered (calls dones), none⟩, left) ∨
        ∃ count text statement later made error,
          ReadsAt 1 0 (lines code.toList) count text (statements dones) (.ok (some statement)) ∧
          script = statements dones ++ statement :: later ∧
          Makes left statement.value made (.error error) ∧
          execute code session =
            (⟨gathered (calls dones ++ made), some ⟨some (count + 1), error⟩⟩, left))) ∧
    ∀ (a b : String) (script : Script), a.toList.getLast? = some '\n' →
      parseScript (a ++ b).toList = .ok script → (execute a session).1.failure = none →
      let first := execute a session
      let second := execute b first.2
      execute (a ++ b) session = (⟨first.1.captured ++ second.1.captured,
        second.1.failure.map (·.shift (a.toList.count '\n'))⟩, second.2) := by
  refine ⟨fun code h => execute_of_unreadable h session, fun code h => ?_,
    fun a b script => execute_append⟩
  obtain ⟨script, hscript⟩ := exists_parseLines h 1 0
  obtain ⟨dones, left, hpasses, hends⟩ := exists_execute hscript session
  exact ⟨script, dones, left, hscript, hpasses, hpasses.current_eq, hpasses.binding?_eq, hends⟩

-- A line that cannot be read keeps the first from running. A call that fails leaves the one before
-- it, and its statement binds nothing. The failure of the last line is one line further down.
theorem failing_blocks_run_atomically :
    (∃ text ∈ lines "x = true\ny = (\n".toList, Unreadable text) ∧
    (execute "x = true\ny = (\n" .empty).2 = .empty ∧
    (∀ text ∈ lines "x = true\ny = print(x) == fail(x)\n".toList, ¬Unreadable text) ∧
    (∃ dones, Passes .empty dones (execute "x = true\ny = print(x) == fail(x)\n" .empty).2 ∧
      (execute "x = true\ny = print(x) == fail(x)\n" .empty).1.captured.output = "true\n") ∧
    "x = true\n".toList.getLast? = some '\n' ∧
    (∃ script, parseScript ("x = true\n" ++ "fail(x)\n").toList = .ok script) ∧
    (execute "x = true\n" .empty).1.failure = none ∧
    (execute ("x = true\n" ++ "fail(x)\n") .empty).1.failure =
      (execute "fail(x)\n" (execute "x = true\n" .empty).2).1.failure.map (·.shift 1) := by
  obtain ⟨hunreadable, hreadable, happend⟩ := blocks_run_atomically .empty
  obtain ⟨error, herror⟩ : ∃ error, parseStatement 1 0 (trimEnd isLineEnd "y = (\n".toList) =
      .error error := Action.exists_error_of_isOk (by decide +kernel)
  have hbad : ∃ text ∈ lines "x = true\ny = (\n".toList, Unreadable text :=
    ⟨"y = (\n".toList, by decide +kernel, 1, 0, error, herror⟩
  obtain ⟨_, _, _, _, _, hnothing⟩ := hunreadable _ hbad
  obtain ⟨script, hscript⟩ : ∃ script,
      parseScript "x = true\ny = print(x) == fail(x)\n".toList = .ok script :=
    Action.exists_ok_of_isOk (by decide +kernel)
  have hgood := not_unreadable_of_parseLines hscript
  obtain ⟨_, dones, left, _, hpasses, _, _, hends⟩ := hreadable _ hgood
  have hleft : (execute "x = true\ny = print(x) == fail(x)\n" .empty).2 = left := by
    rcases hends with ⟨_, hrun⟩ | ⟨_, _, _, _, _, _, _, _, _, hrun⟩ <;> rw [hrun]
  have hwhole : ∃ script, parseScript ("x = true\n" ++ "fail(x)\n").toList = .ok script :=
    Action.exists_ok_of_isOk (by decide +kernel)
  have hrun : (execute "x = true\n" .empty).1.failure = none := by
    rw [← Option.isNone_iff_eq_none]
    decide +kernel
  obtain ⟨both, hboth⟩ := hwhole
  have hlater := happend _ _ both (by decide) hboth hrun
  refine ⟨hbad, by rw [hnothing], hgood, ⟨dones, by rw [hleft]; exact hpasses, by decide +kernel⟩,
    by decide, ⟨both, hboth⟩, hrun, ?_⟩
  rw [hlater]
  rfl

end LiveDoc.Calc
