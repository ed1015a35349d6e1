import LiveDoc.Proofs.Calc.Failures
import LiveDoc.Proofs.Calc.Shifting
import LiveDoc.Proofs.Document.Marks

namespace LiveDoc.Calc

open Text

section Lines

variable {lines amount : Nat}

-- The first line that cannot be read settles what comes of all, wherever they stand.
theorem shifts_parseLines (line offset : Nat) (ls : List (List Char)) :
    Shifts lines amount (fun script later => later = script.map (·.shift lines amount))
      (parseLines line offset ls) (parseLines (line + lines) (offset + amount) ls) := by
  induction ls generalizing line offset with
  | nil =>
      rw [parseLines, parseLines]
      exact .ok rfl
  | cons text more ih =>
      rw [parseLines_cons, parseLines_cons, Nat.add_right_comm line, Nat.add_right_comm offset]
      refine (shifts_parseStatement line offset _).bind fun own own' hown => ?_
      refine (ih (line + 1) (offset + byteCount text)).bind fun rest rest' hrest => .ok ?_
      rw [hown, hrest, List.map_append]
      cases own <;> rfl

-- Lines behind others are read where these end, unless these cannot be read.
theorem parseLines_append (line offset : Nat) (front back : List (List Char)) :
    parseLines line offset (front ++ back) = (do
      let first ← parseLines line offset front
      let second ← parseLines (line + front.length) (offset + byteCount front.flatten) back
      .ok (first ++ second)) := by
  induction front generalizing line offset with
  | nil =>
      simp only [List.nil_append, List.length_nil, Nat.add_zero, List.flatten_nil, byteCount_nil,
        parseLines]
      cases parseLines line offset back <;> rfl
  | cons text more ih =>
      have hline : line + 1 + more.length = line + (text :: more).length := by
        rw [List.length_cons]
        omega
      have hoffset : offset + byteCount text + byteCount more.flatten =
          offset + byteCount (text :: more).flatten := by
        rw [List.flatten_cons, byteCount_append, Nat.add_assoc]
      rw [List.cons_append, parseLines_cons, parseLines_cons, ih, hline, hoffset]
      simp only [bind, Except.bind]
      cases parseStatement line offset (trimEnd isLineEnd text) with
      | error error => rfl
      | ok own =>
          cases parseLines (line + 1) (offset + byteCount text) more with
          | error error => rfl
          | ok first =>
              simp only
              cases parseLines (line + (text :: more).length)
                (offset + byteCount (text :: more).flatten) back with
              | error error => rfl
              | ok second => exact congrArg _ (List.append_assoc ..).symm

end Lines

section Scripts

variable {a : List Char}

-- What comes of the lines behind a text that ends its last line is what comes of them alone, so
-- many lines and bytes further on.
theorem shifts_parseScript (h : a = [] ∨ a.getLast? = some '\n') (b : List Char) :
    ∃ later, parseScript (a ++ b) =
        (do
          let first ← parseScript a
          let second ← later
          .ok (first ++ second)) ∧
      Shifts (a.count '\n') (byteCount a)
        (fun script later => later = script.map (·.shift (a.count '\n') (byteCount a)))
        (parseScript b) later := by
  refine ⟨_, ?_, shifts_parseLines 1 0 (lines b)⟩
  rw [parseScript, lines_append_of_ended h, parseLines_append, flatten_lines,
    length_lines_of_ended h]
  rfl

theorem slice_of_holds {range : ByteRange} {text inside : List Char}
    (h : range.Holds 0 text inside) : slice text range.start range.stop = inside := by
  obtain ⟨before, after, rfl, rfl⟩ := h
  rw [Nat.zero_add]
  exact slice_append before inside after

-- A name of a statement is spelled where its place says.
theorem holds_of_mem_names {line offset : Nat} {text : List Char} {statement : Statement}
    (h : parseStatement line offset text = .ok (some statement)) :
    ∀ own ∈ statement.value.names, own.2.Holds offset text own.1.toList := by
  intro own hown
  obtain ⟨-, place, trailing, front, located, htokens, hwhole⟩ := whole_of_parseStatement h
  obtain ⟨ds, hderives, -⟩ := (whole_eq_ok_iff place trailing located _).mp hwhole
  obtain ⟨inside, hinside, hname⟩ := tokens_in htokens _
    (List.mem_append_right front (hderives.name_mem hown))
  exact hname own.1 rfl ▸ hinside

-- A statement stands in a text: it is what its line holds, and each of its names is cut out of the
-- text at its place.
def Statement.StandsIn (statement : Statement) (text : List Char) : Prop :=
  ∃ front own back, lines text = front ++ own :: back ∧ statement.line = front.length + 1 ∧
    parseStatement statement.line (byteCount front.flatten) (trimEnd isLineEnd own) =
      .ok (some statement) ∧
    ∀ named ∈ statement.value.names,
      named.2.Holds (byteCount front.flatten) own named.1.toList ∧
      slice text named.2.start named.2.stop = named.1.toList

theorem standsIn_of_parseScript {text : List Char} {script : Script}
    (h : parseScript text = .ok script) : ∀ statement ∈ script, statement.StandsIn text := by
  intro statement hstatement
  obtain ⟨before, later, rfl⟩ := List.append_of_mem hstatement
  obtain ⟨count, own, front, back, hlines, rfl, -, hown⟩ := exists_readsAt_of_ok h
  have hline := (whole_of_parseStatement hown).1
  rw [Nat.zero_add, ← hline] at hown
  refine ⟨front, own, back, hlines, by rw [hline, Nat.add_comm], hown, fun named hnamed => ?_⟩
  obtain ⟨trailing, hsplit, -⟩ := exists_trimEnd isLineEnd own
  have hholds : named.2.Holds (byteCount front.flatten) own named.1.toList := by
    have hwithin := (holds_of_mem_names hown named hnamed).within trailing
    rwa [← hsplit] at hwithin
  refine ⟨hholds, slice_of_holds ?_⟩
  rw [← flatten_lines text, hlines, List.flatten_append, List.flatten_cons, ← List.append_assoc]
  refine ByteRange.Holds.within (ByteRange.Holds.behind _ ?_) _
  rwa [Nat.zero_add]

end Scripts

-- A script is read line by line. Behind a text that ends its last line, what follows is read as it
-- is alone, so many lines and bytes further on. A statement therefore stands on the line that it
-- names, and a name in it where its place says.
theorem scripts_are_read_by_lines :
    (∀ a b : List Char, a = [] ∨ a.getLast? = some '\n' →
      (∀ error, parseScript a = .error error → parseScript (a ++ b) = .error error) ∧
      ∀ first, parseScript a = .ok first →
        (∀ second, parseScript b = .ok second → parseScript (a ++ b) =
          .ok (first ++ second.map (·.shift (a.count '\n') (byteCount a)))) ∧
        ∀ error, parseScript b = .error error →
          parseScript (a ++ b) = .error (error.shift (a.count '\n') (byteCount a))) ∧
    ∀ text script, parseScript text = .ok script →
      ∀ statement ∈ script, statement.StandsIn text := by
  refine ⟨fun a b h => ?_, fun text script => standsIn_of_parseScript⟩
  obtain ⟨later, happend, hlater⟩ := shifts_parseScript h b
  refine ⟨fun error ha => by rw [happend, ha]; rfl, fun first ha => ⟨fun second hb => ?_,
    fun error hb => ?_⟩⟩
  · rw [hb] at hlater
    cases hlater with
    | ok hsecond => rw [happend, ha, ← hsecond]; rfl
  · rw [hb] at hlater
    cases hlater
    rw [happend, ha]
    rfl

-- A comment, and a name behind a blank line and a character of two bytes. A second text of which one
-- line cannot be read is blamed two lines further down, and a first text hides what follows it.
theorem two_texts_are_read_by_lines :
    (∃ first second, parseScript "x = \"é\" # 1\n\n".toList = .ok first ∧
      parseScript "print(x)\r\n".toList = .ok second ∧
      parseScript ("x = \"é\" # 1\n\n".toList ++ "print(x)\r\n".toList) =
        .ok (first ++ second.map (·.shift 2 14)) ∧
      ∀ statement ∈ first ++ second.map (·.shift 2 14),
        statement.StandsIn ("x = \"é\" # 1\n\n".toList ++ "print(x)\r\n".toList)) ∧
    (∃ error, parseScript "y = (".toList = .error error ∧
      parseScript ("x = \"é\" # 1\n\n".toList ++ "y = (".toList) = .error (error.shift 2 14)) ∧
    ∃ error, parseScript "y = (\n".toList = .error error ∧
      parseScript ("y = (\n".toList ++ "fail(".toList) = .error error := by
  obtain ⟨hbehind, hstands⟩ := scripts_are_read_by_lines
  obtain ⟨first, hfirst⟩ : ∃ first, parseScript "x = \"é\" # 1\n\n".toList = .ok first :=
    Action.exists_ok_of_isOk (by decide +kernel)
  obtain ⟨second, hsecond⟩ : ∃ second, parseScript "print(x)\r\n".toList = .ok second :=
    Action.exists_ok_of_isOk (by decide +kernel)
  obtain ⟨error, herror⟩ : ∃ error, parseScript "y = (".toList = .error error :=
    Action.exists_error_of_isOk (by decide +kernel)
  obtain ⟨own, hown⟩ : ∃ own, parseScript "y = (\n".toList = .error own :=
    Action.exists_error_of_isOk (by decide +kernel)
  have hended : "x = \"é\" # 1\n\n".toList.getLast? = some '\n' := by decide
  have hcount : "x = \"é\" # 1\n\n".toList.count '\n' = 2 ∧
    byteCount "x = \"é\" # 1\n\n".toList = 14 := by decide +kernel
  obtain ⟨-, hok⟩ := hbehind _ "print(x)\r\n".toList (.inr hended)
  have hboth := (hok first hfirst).1 second hsecond
  obtain ⟨-, hok'⟩ := hbehind _ "y = (".toList (.inr hended)
  have hlater := (hok' first hfirst).2 error herror
  rw [hcount.1, hcount.2] at hboth hlater
  exact ⟨⟨first, second, hfirst, hsecond, hboth, hstands _ _ hboth⟩, ⟨error, herror, hlater⟩, own,
    hown, (hbehind _ "fail(".toList (.inr (by decide))).1 own hown⟩

end LiveDoc.Calc
