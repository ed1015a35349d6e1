import LiveDoc.FileTree.Basic
import Mathlib

namespace LiveDoc

namespace Path

section Cut

open String

-- The cutting of a path in its middle: some pieces have been found, and `piece` is what has been
-- read of the next one.
theorem splitOnAux_slash (past piece left : List Char) (found : List String) :
    splitOnAux (ofList (past ++ piece ++ left)) "/" ⟨utf8Len past⟩
        ⟨utf8Len past + utf8Len piece⟩ 0 found =
      found.reverse ++ (List.splitOnPPrepend (· == '/') left piece.reverse).map ofList := by
  rw [splitOnAux.eq_1]
  cases left with
  | nil =>
      have hend : Pos.Raw.atEnd (ofList (past ++ piece ++ []))
          ⟨utf8Len past + utf8Len piece⟩ = true := by
        simpa only [utf8Len_append] using (atEnd_of_valid (past ++ piece) []).mpr rfl
      rw [if_pos hend, extract_of_valid]
      simp [List.splitOnPPrepend]
  | cons c rest =>
      have hend : ¬ Pos.Raw.atEnd (ofList (past ++ piece ++ c :: rest))
          ⟨utf8Len past + utf8Len piece⟩ = true := by
        simpa [-ofList_append] using atEnd_of_valid (past ++ piece) (c :: rest)
      have hget : Pos.Raw.get (ofList (past ++ piece ++ c :: rest))
          ⟨utf8Len past + utf8Len piece⟩ = c := by
        simpa [-ofList_append] using get_of_valid (past ++ piece) (c :: rest)
      have hnext : Pos.Raw.next (ofList (past ++ piece ++ c :: rest))
          ⟨utf8Len past + utf8Len piece⟩ = ⟨utf8Len past + utf8Len piece + c.utf8Size⟩ := by
        simpa [-ofList_append] using next_of_valid (past ++ piece) c rest
      have hmark : Pos.Raw.get "/" 0 = '/' := by decide
      rw [if_neg hend, hget, hmark, List.splitOnPPrepend_cons_eq_if]
      by_cases hc : c = '/'
      · subst hc
        have hone : Pos.Raw.next "/" 0 = ⟨1⟩ := by decide
        have hstop : Pos.Raw.atEnd "/" (Pos.Raw.next "/" 0) = true := by decide
        have hback : (⟨utf8Len past + utf8Len piece + '/'.utf8Size⟩ : Pos.Raw).unoffsetBy
            (Pos.Raw.next "/" 0) = ⟨utf8Len past + utf8Len piece⟩ := by
          rw [hone]
          rfl
        simp only [beq_self_eq_true, if_true, hnext, hstop, hback, extract_of_valid]
        have h := splitOnAux_slash (past ++ piece ++ ['/']) [] rest (ofList piece :: found)
        simpa [-ofList_append, Nat.add_assoc] using h
      · have hback : Pos.Raw.next (ofList (past ++ piece ++ c :: rest))
            ((⟨utf8Len past + utf8Len piece⟩ : Pos.Raw).unoffsetBy 0) =
              ⟨utf8Len past + utf8Len piece + c.utf8Size⟩ := hnext
        simp only [beq_iff_eq, hc, if_false, hback]
        have h := splitOnAux_slash past (piece ++ [c]) rest found
        simpa [-ofList_append, Nat.add_assoc, Nat.add_comm c.utf8Size] using h
  termination_by left.length

theorem pieces_eq (path : String) : pieces path = (path.toList.splitOn '/').map ofList := by
  have h := splitOnAux_slash [] [] path.toList []
  rw [List.nil_append, List.nil_append, ofList_toList] at h
  exact h

end Cut

theorem pieces_append_slash (front back : String) :
    pieces (front ++ "/" ++ back) = pieces front ++ pieces back := by
  have hlist : (front ++ "/" ++ back).toList = front.toList ++ '/' :: back.toList := by simp
  rw [pieces_eq, pieces_eq, pieces_eq, hlist, List.splitOn,
    List.splitOnP_append_cons _ _ (by rfl), List.map_append]
  rfl

theorem pieces_of_not_mem {path : String} (h : '/' ∉ path.toList) : pieces path = [path] := by
  have hplain : ∀ c ∈ path.toList, (c == '/') = false := fun c hc => by
    simpa using fun heq : c = '/' => h (heq ▸ hc)
  rw [pieces_eq, List.splitOn, List.splitOnP_eq_singleton hplain, List.map_singleton,
    String.ofList_toList]

theorem pieces_ne_nil (path : String) : pieces path ≠ [] := by
  rw [pieces_eq]
  exact mt List.map_eq_nil_iff.mp (List.splitOnP_ne_nil _ _)

theorem not_mem_of_mem_splitOn {text piece : List Char} (h : piece ∈ text.splitOn '/') :
    '/' ∉ piece := by
  induction text generalizing piece with
  | nil =>
      rw [List.splitOn, List.splitOnP_nil] at h
      cases List.mem_singleton.mp h
      exact List.not_mem_nil
  | cons c rest ih =>
      obtain ⟨first, more, hrest⟩ := List.exists_cons_of_ne_nil
        (List.splitOnP_ne_nil (fun d => d == '/') rest)
      rw [List.splitOn, hrest] at ih
      rw [List.splitOn, List.splitOnP_cons_eq_if_modifyHead, hrest] at h
      split at h
      · rcases List.mem_cons.mp h with rfl | h
        · exact List.not_mem_nil
        · exact ih h
      · rename_i hc
        rcases List.mem_cons.mp h with rfl | h
        · intro hmem
          rcases List.mem_cons.mp hmem with rfl | hmem
          · exact hc rfl
          · exact ih (List.mem_cons_self ..) hmem
        · exact ih (List.mem_cons_of_mem _ h)

theorem slash_not_mem_piece {path piece : String} (h : piece ∈ pieces path) :
    '/' ∉ piece.toList := by
  rw [pieces_eq] at h
  obtain ⟨chars, hchars, rfl⟩ := List.mem_map.mp h
  rw [String.toList_ofList]
  exact not_mem_of_mem_splitOn hchars

theorem joined_cons_cons (first second : String) (rest : List String) :
    Text.joined "/" (first :: second :: rest) =
      first ++ "/" ++ Text.joined "/" (second :: rest) := rfl

theorem pieces_joined {parts : List String} (hne : parts ≠ [])
    (hparts : ∀ part ∈ parts, '/' ∉ part.toList) : pieces (Text.joined "/" parts) = parts := by
  induction parts with
  | nil => exact (hne rfl).elim
  | cons first rest ih =>
      obtain ⟨hfirst, hrest⟩ := List.forall_mem_cons.mp hparts
      cases rest with
      | nil => exact pieces_of_not_mem hfirst
      | cons second more =>
          rw [joined_cons_cons, pieces_append_slash, pieces_of_not_mem hfirst,
            ih (List.cons_ne_nil _ _) hrest]
          rfl

theorem joined_pieces (path : String) : Text.joined "/" (pieces path) = path := by
  have hjoined : ∀ parts : List (List Char),
      (Text.joined "/" (parts.map String.ofList)).toList = ['/'].intercalate parts := by
    intro parts
    induction parts with
    | nil => rfl
    | cons first rest ih =>
        cases rest with
        | nil => simp [Text.joined]
        | cons second more =>
            rw [List.map_cons, List.map_cons, joined_cons_cons, ← List.map_cons,
              String.toList_append, ih]
            simp
  apply String.toList_injective
  rw [pieces_eq, hjoined, List.intercalate_splitOn]

-- An absolute path begins with an empty piece and has more behind it.
theorem isAbsolute_iff {path : String} :
    isAbsolute path = true ↔ ∃ piece rest, pieces path = "" :: piece :: rest := by
  rw [isAbsolute, String.startsWith_string_iff]
  constructor
  · rintro ⟨rest, hrest⟩
    have hpath : path = "" ++ "/" ++ String.ofList rest := by
      apply String.toList_injective
      simpa using hrest.symm
    obtain ⟨piece, more, hmore⟩ := List.exists_cons_of_ne_nil (pieces_ne_nil (String.ofList rest))
    refine ⟨piece, more, ?_⟩
    rw [hpath, pieces_append_slash, hmore, pieces_of_not_mem (by decide)]
    rfl
  · rintro ⟨piece, rest, hpieces⟩
    rw [← joined_pieces path, hpieces, joined_cons_cons]
    exact ⟨(Text.joined "/" (piece :: rest)).toList, by simp⟩

end Path

theorem steps_append_slash (front back : String) :
    steps (front ++ "/" ++ back) = steps front ++ steps back := by
  rw [steps, Path.pieces_append_slash, List.map_append]
  rfl

-- A text without a slash that is no dot name is one component.
theorem steps_of_component {name : String} (h : '/' ∉ name.toList) (hempty : name ≠ "")
    (hdot : name ≠ ".") (hdots : name ≠ "..") : steps name = [.name name] := by
  rw [steps, Path.pieces_of_not_mem h, List.map_singleton, Step.ofPiece, if_neg (by simp [*]),
    if_neg hdots]

theorem steps_ne_nil (path : String) : steps path ≠ [] :=
  mt List.map_eq_nil_iff.mp (Path.pieces_ne_nil path)

theorem steps_empty : steps "" = [.stay] := by
  rw [steps, Path.pieces_of_not_mem (by decide)]
  rfl

theorem steps_dot : steps "." = [.stay] := by
  rw [steps, Path.pieces_of_not_mem (by decide)]
  rfl

-- Where a step leads, if there is nothing to follow but names.
def Step.follow (place : Location) : Step → Location
  | .stay => place
  | .up => place.tail
  | .name own => own :: place

def follow (place : Location) (todo : List Step) : Location := todo.foldl Step.follow place

theorem follow_append (place : Location) (front back : List Step) :
    follow place (front ++ back) = follow (follow place front) back := List.foldl_append

-- Steps that stay where they are.
def Idle (todo : List Step) : Prop := ∀ step ∈ todo, step = .stay

theorem follow_idle {todo : List Step} (h : Idle todo) (place : Location) :
    follow place todo = place := by
  induction todo with
  | nil => rfl
  | cons step rest ih =>
      obtain ⟨rfl, hrest⟩ := List.forall_mem_cons.mp h
      have hstay : follow place (.stay :: rest) = follow place rest := rfl
      rw [hstay, ih hrest]

theorem exists_of_dropIdle (pieces : List String) :
    ∃ idle, pieces = idle ++ Path.dropIdle pieces ∧ Idle (idle.map Step.ofPiece) := by
  induction pieces with
  | nil => exact ⟨[], rfl, fun _ h => nomatch h⟩
  | cons piece rest ih =>
      cases rest with
      | nil => exact ⟨[], rfl, fun _ h => nomatch h⟩
      | cons next more =>
          unfold Path.dropIdle
          by_cases hpiece : piece = "" ∨ piece = "."
          · obtain ⟨idle, hidle, hsteps⟩ := ih
            rw [if_pos hpiece]
            refine ⟨piece :: idle, congrArg _ hidle, List.forall_mem_cons.mpr ⟨?_, hsteps⟩⟩
            rw [Step.ofPiece, if_pos hpiece]
          · rw [if_neg hpiece]
            exact ⟨[], rfl, fun _ h => nomatch h⟩

theorem dropIdle_ne_nil {pieces : List String} (h : pieces ≠ []) : Path.dropIdle pieces ≠ [] := by
  induction pieces with
  | nil => exact (h rfl).elim
  | cons piece rest ih =>
      cases rest with
      | nil => exact List.cons_ne_nil _ _
      | cons next more =>
          unfold Path.dropIdle
          split
          · exact ih (List.cons_ne_nil _ _)
          · exact List.cons_ne_nil _ _

theorem eq_of_ofPiece {piece name : String} (h : Step.ofPiece piece = .name name) :
    piece = name ∧ piece ≠ "" ∧ piece ≠ "." := by
  unfold Step.ofPiece at h
  split at h
  · cases h
  · rename_i hidle
    split at h
    · cases h
    · cases h
      exact ⟨rfl, fun hempty => hidle (.inl hempty), fun hdot => hidle (.inr hdot)⟩

theorem steps_slash : steps "/" = [.stay, .stay] := by
  have hcut : "/" = "" ++ "/" ++ "" := by decide
  rw [hcut, steps_append_slash, steps_empty]
  rfl

namespace Path

theorem isAbsolute_slash : isAbsolute "/" = true := by
  refine isAbsolute_iff.mpr ⟨"", [], ?_⟩
  have hcut : "/" = "" ++ "/" ++ "" := by decide
  rw [hcut, pieces_append_slash, pieces_of_not_mem (by decide)]
  rfl

-- The root alone is spelled as a slash; all other parts are joined by slashes.
theorem pieces_ofPieces {parts : List String} (hne : parts ≠ []) (hroot : parts ≠ [""])
    (hparts : ∀ part ∈ parts, '/' ∉ part.toList) : pieces (ofPieces parts) = parts.reverse := by
  have hjoined : ofPieces parts = Text.joined "/" parts.reverse := by
    unfold ofPieces
    split
    · exact (hroot rfl).elim
    · rfl
  rw [hjoined]
  exact pieces_joined (by simpa using hne) fun part hpart => hparts part (List.mem_reverse.mp hpart)

-- Pieces behind the first two do not tell whether a path starts at the root.
theorem isAbsolute_of_pieces {path other : String} {front back : List String} (hne : front ≠ [])
    (hroot : front ≠ [""]) (hpath : pieces path = front) (hother : pieces other = front ++ back) :
    isAbsolute path = isAbsolute other := by
  rw [Bool.eq_iff_iff, isAbsolute_iff, isAbsolute_iff, hpath, hother]
  constructor
  · rintro ⟨piece, rest, rfl⟩
    exact ⟨piece, rest ++ back, rfl⟩
  · rintro ⟨piece, rest, hrest⟩
    cases front with
    | nil => exact (hne rfl).elim
    | cons first others =>
        obtain ⟨rfl, -⟩ := List.cons.inj hrest
        cases others with
        | nil => exact (hroot rfl).elim
        | cons second more => exact ⟨second, more, rfl⟩

theorem not_isAbsolute_of_single {path piece : String} (h : pieces path = [piece]) :
    isAbsolute path = false := by
  rw [← Bool.not_eq_true, isAbsolute_iff]
  rintro ⟨next, rest, hrest⟩
  simpa using congrArg List.length (h.symm.trans hrest)

theorem parent?_of_pieces {path last next : String} {more : List String}
    (hreverse : (pieces path).reverse = last :: next :: more) (hempty : last ≠ "")
    (hdot : last ≠ ".") : parent? path = some (ofPieces (dropIdle (next :: more))) := by
  have hkept : dropIdle (last :: next :: more) = last :: next :: more := by
    conv => lhs; unfold dropIdle
    rw [if_neg (not_or.mpr ⟨hempty, hdot⟩)]
  rw [parent?, hreverse, hkept]
  split
  · rename_i hparts
    cases hparts
  · rename_i hparts
    cases hparts
  · rename_i hparts
    cases hparts
  · rename_i hparts
    rw [(List.cons.inj hparts).2]

end Path

-- The parts that are left when the last name of a path is gone, read as a path again.
theorem follow_ofPieces {parts idle : List String} (hne : parts ≠ [])
    (hparts : ∀ part ∈ parts, '/' ∉ part.toList) (hidle : Idle (idle.map Step.ofPiece))
    {path last : String} (hpath : Path.pieces path = parts.reverse ++ idle.reverse ++ [last]) :
    Path.ofPieces parts ≠ "" ∧
      Path.isAbsolute (Path.ofPieces parts) = Path.isAbsolute path ∧
      ∀ place, follow place (steps (Path.ofPieces parts)) =
        follow place ((parts.reverse ++ idle.reverse).map Step.ofPiece) := by
  have hback : Idle (idle.reverse.map Step.ofPiece) := fun step hstep => by
    rw [List.map_reverse] at hstep
    exact hidle step (List.mem_reverse.mp hstep)
  by_cases hroot : parts = [""]
  · subst hroot
    have habsolute : Path.isAbsolute path = true := by
      obtain ⟨piece, rest, hrest⟩ := List.exists_cons_of_ne_nil
        (List.append_ne_nil_of_right_ne_nil idle.reverse (List.cons_ne_nil last []))
      refine Path.isAbsolute_iff.mpr ⟨piece, rest, ?_⟩
      rw [hpath, List.append_assoc, hrest]
      rfl
    refine ⟨by decide, ?_, fun place => ?_⟩
    · rw [habsolute]
      exact Path.isAbsolute_slash
    · rw [Path.ofPieces, steps_slash, List.map_append, follow_append, follow_idle hback]
      rfl
  · have hpieces := Path.pieces_ofPieces hne hroot hparts
    have hsome : parts.reverse ≠ [] := by simpa using hne
    have hlong : parts.reverse ≠ [""] := fun h => hroot (List.reverse_eq_iff.mp h)
    refine ⟨fun hempty => ?_, ?_, fun place => ?_⟩
    · rw [hempty, Path.pieces_of_not_mem (by decide)] at hpieces
      exact hlong hpieces.symm
    · rw [List.append_assoc] at hpath
      exact Path.isAbsolute_of_pieces hsome hlong hpieces hpath
    · rw [steps, hpieces, List.map_append, follow_append, follow_idle hback]

-- The directory of a path leads where the path leads without its last name.
theorem follow_directory {path name : String} {front : List Step}
    (h : steps path = front ++ [.name name]) :
    Path.isAbsolute (Path.directory path) = Path.isAbsolute path ∧
      ∀ place, follow place (steps (Path.directory path)) = follow place front := by
  obtain ⟨init, lasts, hpieces, hfront, hlast⟩ := List.map_eq_append_iff.mp h
  obtain ⟨last, none, rfl, hname, hnil⟩ := List.map_eq_cons_iff.mp hlast
  obtain rfl := List.map_eq_nil_iff.mp hnil
  obtain ⟨-, hempty, hdot⟩ := eq_of_ofPiece hname
  have hreverse : (Path.pieces path).reverse = last :: init.reverse := by
    rw [hpieces, List.reverse_append]
    rfl
  cases hinit : init.reverse with
  | nil =>
      obtain rfl : init = [] := List.reverse_eq_nil_iff.mp hinit
      have hdirectory : Path.directory path = "." := by
        rw [Path.directory, Path.parent?, hreverse]
        simp [Path.dropIdle]
      rw [hdirectory, ← hfront, steps_dot]
      refine ⟨?_, fun place => rfl⟩
      rw [Path.not_isAbsolute_of_single hpieces,
        Path.not_isAbsolute_of_single (Path.pieces_of_not_mem (by decide))]
  | cons next more =>
      rw [hinit] at hreverse
      obtain ⟨idle, hidle, hstay⟩ := exists_of_dropIdle (next :: more)
      have hkeptPieces : Path.pieces path =
          (Path.dropIdle (next :: more)).reverse ++ idle.reverse ++ [last] := by
        rw [hpieces, ← List.reverse_reverse init, hinit, ← List.reverse_append, ← hidle]
      have hparts : ∀ part ∈ Path.dropIdle (next :: more), '/' ∉ part.toList := fun part hpart =>
        @Path.slash_not_mem_piece path part (by rw [hkeptPieces]; simp [hpart])
      obtain ⟨hsome, habsolute, hfollow⟩ :=
        follow_ofPieces (dropIdle_ne_nil (List.cons_ne_nil next more)) hparts hstay hkeptPieces
      have hdirectory : Path.directory path = Path.ofPieces (Path.dropIdle (next :: more)) := by
        rw [Path.directory, Path.parent?_of_pieces hreverse hempty hdot]
        simp [hsome]
      rw [hdirectory]
      refine ⟨habsolute, fun place => ?_⟩
      rw [hfollow, ← List.reverse_append, ← hidle, ← hinit, List.reverse_reverse, hfront]

end LiveDoc
