import LiveDoc.Calc.Execution
import LiveDoc.Proofs.Calc.Places
import LiveDoc.Proofs.Text.Lines

namespace LiveDoc.Calc

open Text

-- What reading one of some lines comes to, where the lines before it, of this number, are read as a
-- script.
def ReadsAt (line offset : Nat) (ls : List (List Char)) (count : Nat) (text : List Char)
    (before : Script) (result : Except SyntaxError (Option Statement)) : Prop :=
  ∃ front back, ls = front ++ text :: back ∧ count = front.length ∧
    parseLines line offset front = .ok before ∧
    parseStatement (line + count) (offset + byteCount front.flatten) (trimEnd isLineEnd text) =
      result

-- How code fails from a session on the line behind this number of lines: the line cannot be read,
-- and nothing is run, or it holds the first statement that fails.
inductive FailsOn (code : List Char) (session : Session) (count : Nat) (text : List Char) :
    Captured → ScriptError → Prop
  | reading {before : Script} {error : SyntaxError} :
      ReadsAt 1 0 (lines code) count text before (.error error) →
      FailsOn code session count text .none (.badSyntax error.fault)
  | running {before later : Script} {statement : Statement} {middle : Session}
      {captured last : Captured} {cause : ScriptError} :
      ReadsAt 1 0 (lines code) count text before (.ok (some statement)) →
      parseScript code = .ok (before ++ statement :: later) →
      runStatements session .none before = (⟨captured, none⟩, middle) →
      runStatement middle captured statement = (.error cause, last) →
      FailsOn code session count text last cause

theorem FailsOn.hasLine {code text : List Char} {session : Session} {count : Nat}
    {captured : Captured} {cause : ScriptError}
    (h : FailsOn code session count text captured cause) : HasLine code (count + 1) text := by
  cases h with
  | reading hreads | running hreads _ _ _ =>
      obtain ⟨front, back, hlines, rfl, -⟩ := hreads
      exact ⟨front, back, hlines, rfl⟩

section Lines

variable {line offset : Nat} {text : List Char}

theorem line_of_tokens_eq_error {error : SyntaxError} (h : tokens line offset text = .error error) :
    error.line = line := by
  fun_induction tokens line offset text with
  | case1 offset => cases h
  | case2 offset c rest hblank ih => exact ih h
  | case3 offset rest hblank => cases h
  | case4 offset c rest hblank hmark misread hlexeme =>
      cases h
      rfl
  | case5 offset c rest hblank hmark token count hlexeme stop ih =>
      cases hmore : tokens line stop (rest.drop count) with
      | ok more =>
          rw [hmore] at h
          cases h
      | error later =>
          rw [hmore] at h
          cases h
          exact ih hmore

theorem line_of_parseStatement_eq_error {error : SyntaxError}
    (h : parseStatement line offset text = .error error) : error.line = line := by
  rcases parseStatement_cases line offset text with ⟨own, htokens, hown⟩ | hnone |
    ⟨place, trailing, _, located, build, hplace, -, -, hwhole⟩
  · cases hown.symm.trans h
    exact line_of_tokens_eq_error htokens
  · cases hnone.symm.trans h
  · rw [hwhole] at h
    cases hvalue : whole place trailing located with
    | ok value =>
        rw [hvalue] at h
        cases h
    | error own =>
        rw [hvalue] at h
        cases h
        exact (place_of_whole_eq_error hvalue).1.trans hplace

end Lines

section Scripts

variable {line offset : Nat} {ls : List (List Char)}

theorem readsAt_first {text : List Char} {result : Except SyntaxError (Option Statement)}
    (more : List (List Char)) (h : parseStatement line offset (trimEnd isLineEnd text) = result) :
    ReadsAt line offset (text :: more) 0 text [] result :=
  ⟨[], more, rfl, rfl, by rw [parseLines], h⟩

theorem ReadsAt.below {first : List Char} {statement : Option Statement}
    (hfirst : parseStatement line offset (trimEnd isLineEnd first) = .ok statement) {count : Nat}
    {text : List Char} {before : Script} {result : Except SyntaxError (Option Statement)}
    (h : ReadsAt (line + 1) (offset + byteCount first) ls count text before result) :
    ReadsAt line offset (first :: ls) (count + 1) text (statement.toList ++ before) result := by
  obtain ⟨front, back, rfl, rfl, hbefore, hresult⟩ := h
  refine ⟨first :: front, back, rfl, rfl, ?_, ?_⟩
  · exact parseLines_cons_of_ok hfirst hbefore
  · simp only [List.flatten_cons, byteCount_append]
    rw [← Nat.add_assoc offset, Nat.add_comm front.length 1, ← Nat.add_assoc]
    exact hresult

-- Lines that cannot be read have a first one.
theorem exists_readsAt_of_error {error : SyntaxError}
    (h : parseLines line offset ls = .error error) :
    ∃ count text before, ReadsAt line offset ls count text before (.error error) := by
  induction ls generalizing line offset with
  | nil => cases h
  | cons first more ih =>
      rw [parseLines_cons] at h
      cases hfirst : parseStatement line offset (trimEnd isLineEnd first) with
      | error own =>
          rw [hfirst] at h
          cases h
          exact ⟨0, first, [], readsAt_first more hfirst⟩
      | ok statement =>
          simp only [hfirst, bind, Except.bind] at h
          cases hrest : parseLines (line + 1) (offset + byteCount first) more with
          | ok rest =>
              rw [hrest] at h
              cases h
          | error own =>
              rw [hrest] at h
              cases h
              obtain ⟨count, text, before, hreads⟩ := ih hrest
              exact ⟨count + 1, text, statement.toList ++ before, hreads.below hfirst⟩

-- A statement of a script is on a line of its own, and the statements before it are on the lines
-- before.
theorem exists_readsAt_of_ok {before later : Script} {statement : Statement}
    (h : parseLines line offset ls = .ok (before ++ statement :: later)) :
    ∃ count text, ReadsAt line offset ls count text before (.ok (some statement)) := by
  induction ls generalizing line offset before with
  | nil =>
      rw [parseLines] at h
      cases before <;> cases h
  | cons first more ih =>
      obtain ⟨own, rest, hfirst, hrest, h⟩ := parseLines_cons_eq_ok h
      cases own with
      | none =>
          obtain ⟨count, text, hreads⟩ := ih (hrest.trans (congrArg _ h.symm))
          exact ⟨count + 1, text, hreads.below hfirst⟩
      | some head =>
          cases before with
          | nil =>
              obtain ⟨rfl, -⟩ := List.cons.inj h
              exact ⟨0, first, readsAt_first more hfirst⟩
          | cons other others =>
              obtain ⟨rfl, hothers⟩ := List.cons.inj h
              obtain ⟨count, text, hreads⟩ := ih (hrest.trans (congrArg _ hothers.symm))
              exact ⟨count + 1, text, hreads.below hfirst⟩

end Scripts

-- A run that fails does so at its first failing statement.
theorem exists_of_runStatements_eq_failure {script : Script} {session left : Session}
    {captured : Captured} {execution : Execution} {failure : Failure}
    (hrun : runStatements session captured script = (execution, left))
    (hfailure : execution.failure = some failure) :
    ∃ before statement later middle own, script = before ++ statement :: later ∧
      runStatements session captured before = (⟨own, none⟩, middle) ∧
      runStatement middle own statement = (.error failure.error, execution.captured) ∧
      failure.line = some statement.line := by
  induction script generalizing session captured with
  | nil =>
      cases hrun
      cases hfailure
  | cons statement rest ih =>
      rw [runStatements] at hrun
      cases hstep : runStatement session captured statement with
      | mk result own =>
          rw [hstep] at hrun
          cases result with
          | error error =>
              cases hrun
              cases hfailure
              exact ⟨[], statement, rest, left, captured, rfl, rfl, hstep, rfl⟩
          | ok middle =>
              obtain ⟨before, failing, later, last, reached, rfl, hbefore, hfails, hline⟩ := ih hrun
              refine ⟨statement :: before, failing, later, last, reached, rfl, ?_, hfails, hline⟩
              rw [runStatements, hstep]
              exact hbefore

-- Code that fails does so on the line that its failure names.
theorem failsOn_of_execute {code : String} {session left : Session} {execution : Execution}
    {failure : Failure} (hrun : execute code session = (execution, left))
    (hfailure : execution.failure = some failure) :
    ∃ count text, failure.line = some (count + 1) ∧
      FailsOn code.toList session count text execution.captured failure.error := by
  unfold execute at hrun
  cases hscript : parseScript code.toList with
  | error error =>
      rw [hscript] at hrun
      cases hrun
      cases hfailure
      obtain ⟨count, text, before, hreads⟩ := exists_readsAt_of_error hscript
      refine ⟨count, text, ?_, .reading hreads⟩
      obtain ⟨_, _, _, _, _, herror⟩ := hreads
      rw [line_of_parseStatement_eq_error herror, Nat.add_comm]
  | ok script =>
      rw [hscript] at hrun
      obtain ⟨before, statement, later, middle, captured, rfl, hbefore, hfails, hline⟩ :=
        exists_of_runStatements_eq_failure hrun hfailure
      obtain ⟨count, text, hreads⟩ := exists_readsAt_of_ok hscript
      refine ⟨count, text, ?_, .running hreads hscript hbefore hfails⟩
      obtain ⟨_, _, _, _, _, hstatement⟩ := hreads
      rw [hline, (whole_of_parseStatement hstatement).1, Nat.add_comm]

end LiveDoc.Calc
