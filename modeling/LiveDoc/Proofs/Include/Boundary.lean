import LiveDoc.Proofs.Include.Detection
import LiveDoc.Proofs.Include.Flattening
import LiveDoc.Proofs.Include.Positions
import LiveDoc.Proofs.Run.Prints

namespace LiveDoc

open Text

def Visit.isDirective : Visit → Bool
  | .directive _ => true
  | _ => false

-- A walk with what each directive stands for in its place.
inductive Unfolds (files : Files) : String → List Visit → List Visit → Prop
  | nil (directory : String) : Unfolds files directory [] []
  | keep {directory : String} {visit : Visit} {rest out : List Visit} :
      visit.isDirective = false → Unfolds files directory rest out →
      Unfolds files directory (visit :: rest) (visit :: out)
  | directive {directory : String} {own : Include} {location : Location}
      {inside inner : List Node} {rest out : List Visit} :
      Opens files directory own location inside →
      Unfolds files location.directory (visits inside) (visits inner) →
      Unfolds files directory rest out →
      Unfolds files directory (.directive own :: rest) (visits inner ++ out)

section Walks

variable {files : Files} {directory : String}

theorem Unfolds.append {front back out more : List Visit} (h : Unfolds files directory front out)
    (h' : Unfolds files directory back more) :
    Unfolds files directory (front ++ back) (out ++ more) := by
  induction h with
  | nil => exact h'
  | keep hkept _ ih => exact .keep hkept (ih h')
  | directive hopens hinside _ _ ih =>
      rw [List.append_assoc]
      exact .directive hopens hinside (ih h')

theorem Unfolds.split {front back out : List Visit}
    (h : Unfolds files directory (front ++ back) out) :
    ∃ own rest, out = own ++ rest ∧ Unfolds files directory front own ∧
      Unfolds files directory back rest := by
  induction front generalizing out with
  | nil => exact ⟨[], out, rfl, .nil directory, h⟩
  | cons visit more ih =>
      cases h with
      | keep hkept h =>
          obtain ⟨own, rest, rfl, hown, hrest⟩ := ih h
          exact ⟨visit :: own, rest, rfl, .keep hkept hown, hrest⟩
      | directive hopens hinside h =>
          obtain ⟨own, rest, rfl, hown, hrest⟩ := ih h
          exact ⟨_, rest, (List.append_assoc _ _ _).symm, .directive hopens hinside hown, hrest⟩

theorem Unfolds.unique {vs out other : List Visit} (h : Unfolds files directory vs out)
    (h' : Unfolds files directory vs other) : out = other := by
  induction h generalizing other with
  | nil =>
      cases h'
      rfl
  | keep hkept _ ih =>
      cases h' with
      | keep _ h' => rw [ih h']
      | directive => cases hkept
  | directive hopens _ _ ihInside ihRest =>
      cases h' with
      | keep hkept _ => cases hkept
      | directive hopens' hinside hrest =>
          obtain ⟨rfl, rfl⟩ := hopens.unique hopens'
          rw [ihInside hinside, ihRest hrest]

theorem unfolds_of_flat {nodes out : List Node} (h : Flat files directory nodes out) :
    Unfolds files directory (visits nodes) (visits out) := by
  induction h with
  | nil directory => exact .nil directory
  | prose own _ ih => exact .keep rfl ih
  | code own _ ih => exact .keep rfl ih
  | conditional guard source span _ _ ihChildren ihRest =>
      refine .keep rfl ?_
      exact (ihChildren.append (.keep rfl (.nil _))).append ihRest
  | directive hopens _ _ ihInside ihRest =>
      rw [visits_append]
      exact .directive hopens ihInside ihRest

end Walks

-- An include in a walk, at any depth: what the walk unfolds to before it and for it, what it
-- names, and the nodes that it opens.
inductive Placed (files : Files) :
    String → List Visit → List Visit → List Visit → Target → List Node → Prop
  | here {directory : String} {front rest before : List Visit} {own : Include}
      {location : Location} {inside inner : List Node} :
      Unfolds files directory front before → Opens files directory own location inside →
      Unfolds files location.directory (visits inside) (visits inner) →
      Placed files directory (front ++ .directive own :: rest) before (visits inner)
        (location, own.part) inside
  | deeper {directory : String} {front rest before more body : List Visit} {outer : Include}
      {location : Location} {inside nodes : List Node} {target : Target} :
      Unfolds files directory front before → Opens files directory outer location inside →
      Placed files location.directory (visits inside) more body target nodes →
      Placed files directory (front ++ .directive outer :: rest) (before ++ more) body target nodes

section Places

variable {files : Files} {directory : String}

theorem Placed.opens {vs before body : List Visit} {target : Target} {inside : List Node}
    (h : Placed files directory vs before body target inside) :
    ∃ place own location inner, target = (location, own.part) ∧
      Opens files place own location inside ∧ body = visits inner ∧
      Unfolds files location.directory (visits inside) (visits inner) := by
  induction h with
  | here _ hopens hinside => exact ⟨_, _, _, _, rfl, hopens, rfl, hinside⟩
  | deeper _ _ _ ih => exact ih

theorem Placed.split {vs before body out : List Visit} {target : Target} {inside : List Node}
    (h : Placed files directory vs before body target inside)
    (hout : Unfolds files directory vs out) : ∃ after, out = before ++ body ++ after := by
  induction h generalizing out with
  | here hfront hopens hinside =>
      obtain ⟨own, rest, rfl, hown, hrest⟩ := hout.split
      cases hrest with
      | keep hkept _ => cases hkept
      | directive hopens' hinside' hrest =>
          obtain ⟨rfl, rfl⟩ := hopens.unique hopens'
          rw [hfront.unique hown, hinside.unique hinside']
          exact ⟨_, (List.append_assoc _ _ _).symm⟩
  | deeper hfront hopens _ ih =>
      obtain ⟨own, rest, rfl, hown, hrest⟩ := hout.split
      cases hrest with
      | keep hkept _ => cases hkept
      | directive hopens' hinside' hrest =>
          obtain ⟨rfl, rfl⟩ := hopens.unique hopens'
          obtain ⟨after, hafter⟩ := ih hinside'
          rw [hfront.unique hown, hafter]
          exact ⟨_, by simp only [List.append_assoc]; rfl⟩

end Places

-- The part of a file that a target names stops within a line.
def EndsOpen (files : Files) (target : Target) : Prop :=
  ∃ text before inside after, files.text target.1 = .ok text ∧
    text.toList = before ++ inside ++ after ∧
    partRange? text target.2 = some ⟨byteCount before, byteCount (before ++ inside)⟩ ∧
    atLineStart inside = false

-- Prose that such a part stops with.
def OpenEnd (files : Files) (target : Target) (piece : Prose) : Prop :=
  EndsOpen files target ∧ ∃ directory own inside, Opens files directory own target.1 inside ∧
    own.part = target.2 ∧ (visits inside).getLast? = some (.prose piece)

-- What is put out last is the end of a part that stops within a line.
def LeavesOpen (files : Files) (targets : Target → Prop) (prints : List Print) : Prop :=
  ∃ earlier piece later target, prints = earlier ++ (.prose piece, some piece.text) :: later ∧
    printed later = "" ∧ atLineStart piece.text.toList = false ∧ targets target ∧
    OpenEnd files target piece

-- What is put out last is what stands before the fence of a block that leaves nothing.
def LeavesMark (prints : List Print) : Prop :=
  ∃ earlier piece block later,
    prints = earlier ++ (.prose piece, some piece.text) :: (.code block, some "") :: later ∧
    printed later = "" ∧ atLineStart piece.text.toList = false ∧ block.lead ≠ ""

-- A target that is named below some nodes.
def Below (files : Files) (directory : String) (nodes : List Node) (target : Target) : Prop :=
  ∃ chain own, Asks files directory nodes chain own target

-- A target that is included, or one that is named below the nodes of it.
def Through (files : Files) (target : Target) (inside : List Node) (other : Target) : Prop :=
  other = target ∨ Below files target.1.directory inside other

-- What the directives of a walk name is among some targets, with all that is named below it.
def NamedIn (files : Files) (targets : Target → Prop) (directory : String) (vs : List Visit) : Prop :=
  ∀ own location inside, .directive own ∈ vs → Opens files directory own location inside →
    targets (location, own.part) ∧
      ∀ target, Below files location.directory inside target → targets target

section NamedIn

variable {files : Files} {directory : String} {targets : Target → Prop} {vs more : List Visit}

theorem namedIn_below (files : Files) (directory : String) (nodes : List Node) :
    NamedIn files (Below files directory nodes) directory (visits nodes) := by
  intro own location inside hmem hopens
  refine ⟨⟨[], own, directory, location, .own hmem, hopens.located, rfl⟩, ?_⟩
  rintro target ⟨chain, other, place, found, hreached, hlocate, rfl⟩
  exact ⟨_, other, place, found, .inner hmem hopens hreached, hlocate, rfl⟩

theorem NamedIn.of_imp {wider : Target → Prop} (h : NamedIn files targets directory vs)
    (himp : ∀ target, targets target → wider target) : NamedIn files wider directory vs :=
  fun own location inside hmem hopens =>
    ⟨himp _ (h own location inside hmem hopens).1,
      fun target htarget => himp _ ((h own location inside hmem hopens).2 target htarget)⟩

theorem NamedIn.mono (h : NamedIn files targets directory more) (hsub : vs ⊆ more) :
    NamedIn files targets directory vs :=
  fun own location inside hmem => h own location inside (hsub hmem)

theorem NamedIn.opened {front rest : List Visit} {own : Include} {location : Location}
    {inside : List Node} (h : NamedIn files targets directory (front ++ .directive own :: rest))
    (hopens : Opens files directory own location inside) :
    targets (location, own.part) ∧
      NamedIn files targets location.directory (visits inside) := by
  have hmem : .directive own ∈ front ++ .directive own :: rest :=
    List.mem_append_right _ (List.mem_cons_self ..)
  obtain ⟨htarget, hbelow⟩ := h own location inside hmem hopens
  exact ⟨htarget, (namedIn_below files location.directory inside).of_imp hbelow⟩

end NamedIn

-- What has been put out stops where a line does, or does not for one of the two reasons.
inductive Settled (files : Files) (targets : Target → Prop) (prints : List Print) : Prop
  | line : atLineStart (printed prints).toList = true → Settled files targets prints
  | mark : LeavesMark prints → Settled files targets prints
  | opened : LeavesOpen files targets prints → Settled files targets prints

-- How far a text has been put out: it is settled, or the prose that was passed last is live and goes
-- on with what follows in the text.
inductive Stands (files : Files) (targets : Target → Prop) (passed : List Visit)
    (prints : List Print) (live ended : Bool) : Prop
  | settled : Settled files targets prints → Stands files targets passed prints live ended
  | within {earlier : List Print} {piece : Prose} :
      prints = earlier ++ [(.prose piece, some piece.text)] →
      atLineStart piece.text.toList = false → live = true → ended = false →
      passed.getLast? = some (.prose piece) → Stands files targets passed prints live ended

section Settled

variable {files : Files} {targets : Target → Prop} {prints more : List Print}

theorem atLineStart_of_open_prose {earlier later : List Print} {piece : Prose}
    (hlater : printed later = "") (hpiece : atLineStart piece.text.toList = false) :
    atLineStart (printed (earlier ++ (.prose piece, some piece.text) :: later)).toList = false := by
  rw [printed_append, printed, hlater, Option.getD_some, String.append_empty, String.toList_append]
  exact atLineStart_append_open hpiece

theorem LeavesOpen.not_atLineStart (h : LeavesOpen files targets prints) :
    atLineStart (printed prints).toList = false := by
  obtain ⟨earlier, piece, later, target, rfl, hlater, hpiece, -, -⟩ := h
  exact atLineStart_of_open_prose hlater hpiece

-- So nothing is left open where all the targets stop with a line.
theorem not_leavesOpen (h : ∀ target, targets target → ¬ EndsOpen files target) :
    ¬ LeavesOpen files targets prints := by
  rintro ⟨-, -, -, target, -, -, -, htarget, hend, -⟩
  exact h target htarget hend

theorem Settled.atLineStart_iff (h : Settled files targets prints) (hmark : ¬ LeavesMark prints) :
    atLineStart (printed prints).toList = true ↔ ¬ LeavesOpen files targets prints := by
  constructor
  · intro hline hopen
    exact absurd (hopen.not_atLineStart.symm.trans hline) Bool.false_ne_true
  · intro hopen
    cases h with
    | line hline => exact hline
    | mark h => exact (hmark h).elim
    | opened h => exact (hopen h).elim

-- What puts out nothing changes none of this.
theorem Settled.silent (h : Settled files targets prints) (hmore : printed more = "") :
    Settled files targets (prints ++ more) := by
  cases h with
  | line hline => exact .line (by rwa [printed_append, hmore, String.append_empty])
  | mark h =>
      obtain ⟨earlier, piece, block, later, rfl, hlater, hpiece, hlead⟩ := h
      refine .mark ⟨earlier, piece, block, later ++ more, by simp, ?_, hpiece, hlead⟩
      rw [printed_append, hlater, hmore, String.empty_append]
  | opened h =>
      obtain ⟨earlier, piece, later, target, rfl, hlater, hpiece, htarget, hend⟩ := h
      refine .opened ⟨earlier, piece, later ++ more, target, by simp, ?_, hpiece, htarget, hend⟩
      rw [printed_append, hlater, hmore, String.empty_append]

theorem settled_of_getLast? {print : Print}
    (h : (print.2.getD "").toList.getLast? = some '\n') :
    Settled files targets (prints ++ [print]) := by
  refine .line (atLineStart_of_getLast? ?_)
  rw [printed_append, printed, printed, String.append_empty, String.toList_append,
    List.getLast?_append, h, Option.some_or]

variable {passed : List Visit} {live ended : Bool}

theorem Stands.of_ended (h : Stands files targets passed prints live true) :
    Settled files targets prints := by
  cases h with
  | settled h => exact h
  | within _ _ _ hended _ => cases hended

theorem Stands.of_dead (h : Stands files targets passed prints false ended) :
    Settled files targets prints := by
  cases h with
  | settled h => exact h
  | within _ _ hlive _ _ => cases hlive

-- Live prose that does not end its line is what may go on. It is not empty.
theorem Stands.prose {piece : Prose} (hne : piece.text ≠ "")
    (h : Stands files targets passed prints live ended) :
    Stands files targets (passed ++ [.prose piece])
      (prints ++ [(.prose piece, if live then some piece.text else none)]) live
      (piece.text.toList.getLast? == some '\n') := by
  cases live with
  | false => exact .settled (h.of_dead.silent rfl)
  | true =>
      by_cases hlast : piece.text.toList.getLast? = some '\n'
      · exact .settled (settled_of_getLast? hlast)
      · have hopen : atLineStart piece.text.toList = false :=
          Bool.eq_false_iff.mpr fun hline =>
            hlast (getLast?_of_atLineStart hline (by simpa using hne))
        exact .within rfl hopen rfl (by simpa using hlast) List.getLast?_concat

-- A block that starts within a line has something before its fence. What it leaves ends its line,
-- wherever it starts.
theorem Stands.code {block : CodeBlock} {print : Option String}
    (hlead : block.lead = "" → ended = true) (hdead : print = none → live = false)
    (hprint : ∀ text, print = some text → atLineStart text.toList = true)
    (h : Stands files targets passed prints live ended) :
    Settled files targets (prints ++ [(.code block, print)]) := by
  cases print with
  | none =>
      rw [hdead rfl] at h
      exact h.of_dead.silent rfl
  | some print =>
      by_cases hempty : print = ""
      · subst hempty
        cases h with
        | settled h => exact h.silent rfl
        | @within earlier piece hprints hpiece _ hended _ =>
            have hbefore : block.lead ≠ "" := fun hnone =>
              absurd (hended.symm.trans (hlead hnone)) Bool.false_ne_true
            exact .mark ⟨earlier, piece, block, [], by simp [hprints], rfl, hpiece, hbefore⟩
      · exact settled_of_getLast? (getLast?_of_atLineStart (hprint print rfl) (by simpa using hempty))

end Settled

theorem startsLine_of_lead {text : List Char} {source : Nat} {range : ByteRange}
    {info content : List Char} {block : CodeBlock}
    (hblock : codeBlock text source range info content = .ok block) (hlead : block.lead = "") :
    (Segment.fenced range info content).startsLine text = true := by
  unfold codeBlock at hblock
  dsimp only at hblock
  split at hblock
  · cases hblock
  · cases hblock
    have hempty : containerLead (lineLead text range.start) = [] := by
      simpa using congrArg String.toList hlead
    rw [Segment.startsLine, List.map_eq_nil_iff.mp hempty]
    rfl

section Steps

variable {files : Files} {targets : Target → Prop} {text : List Char} {source : Nat}
  {passed : List Visit} {prints : List Print} {branches after : List Bool} {ended last : Bool}

-- The step: what one segment and its print do.
theorem stands_of_shows {segment : Segment} {visit : Visit} {print : Print} {rest : List Print}
    (hshows : Shows text source segment visit) (hkept : visit.isDirective = false)
    (hstart : segment.startsLine text = true → ended = true)
    (hfull : ∀ start, segment ≠ .prose start []) (halike : Alike visit print)
    (hprinting : Printing branches (print :: rest) after)
    (h : Stands files targets passed prints (branches.all id) ended) :
    ∃ next, Printing next rest after ∧
      Stands files targets (passed ++ [visit]) (prints ++ [print]) (next.all id)
        segment.endsLine := by
  cases hshows with
  | prose start piece =>
      cases halike
      have hne : ∀ span, (Prose.mk (String.ofList piece) span).text ≠ "" :=
        fun span hnil => hfull start (by simpa using hnil)
      cases hprinting with
      | prose _ hrest =>
          exact ⟨branches, hrest, by simpa [Segment.endsLine] using h.prose (hne _)⟩
  | fenced hblock =>
      cases halike with
      | code print hlead =>
          cases hprinting with
          | code _ hdead hown hrest =>
              have hline := fun hnone => hstart (startsLine_of_lead hblock (hlead ▸ hnone))
              exact ⟨branches, hrest, .settled (h.code hline hdead hown)⟩
  | insert => cases hkept
  | startIf =>
      cases halike
      rw [hstart rfl] at h
      cases hprinting with
      | enter _ _ _ included hrest => exact ⟨_, hrest, .settled (h.of_ended.silent rfl)⟩
  | endIf =>
      cases halike
      rw [hstart rfl] at h
      cases hprinting with
      | leave hrest => exact ⟨_, hrest, .settled (h.of_ended.silent rfl)⟩

variable {directory : String} {own : Include} {location : Location} {inside : List Node}

-- A part is read as segments that part lines. It stops within a line if they do.
theorem exists_parted_of_opens (hopens : Opens files directory own location inside) :
    ∃ text source ss last, List.Forall₂ (Shows text source) ss (visits inside) ∧
      Parted text true ss last ∧ (last = false → EndsOpen files (location, own.part)) := by
  obtain ⟨text, range, htext, hrange, hparse⟩ := hopens.parsed
  obtain ⟨before, stretch, after, hsplit, hwindow⟩ := windows_of_partRange? hrange
  obtain ⟨last, hparted, hlast⟩ := parted_segments hsplit hwindow
  refine ⟨_, _, _, last, shows_parseWindow hparse, hparted, fun hopen => ?_⟩
  refine ⟨text, before, stretch, after, htext, hsplit, hwindow ▸ hrange, ?_⟩
  exact Bool.eq_false_iff.mpr fun hline =>
    absurd (hopen.symm.trans (hlast hline)) Bool.false_ne_true

-- Where a part stops, what has been put out is settled: prose that would go on is its end.
theorem Stands.settled_of_part {live : Bool} (hopens : Opens files directory own location inside)
    (hend : last = false → EndsOpen files (location, own.part))
    (htarget : targets (location, own.part))
    (h : Stands files targets (visits inside) prints live last) : Settled files targets prints := by
  cases h with
  | settled h => exact h
  | @within earlier piece hprints hpiece _ hended hlast =>
      exact .opened ⟨earlier, piece, [], (location, own.part), hprints, rfl, hpiece, htarget,
        hend hended, directory, own, inside, hopens, rfl, hlast⟩

-- The run: the induction is on how the walk unfolds. An include is passed by putting out what it
-- stands for behind what has been put out so far.
theorem stands_of_unfolds {vs out : List Visit} (hunfolds : Unfolds files directory vs out)
    {ss : List Segment} {start : List Print} (hnamed : NamedIn files targets directory vs)
    (hshows : List.Forall₂ (Shows text source) ss vs) (hparted : Parted text ended ss last)
    (halike : List.Forall₂ Alike out prints) (hprinting : Printing branches prints after)
    (h : Stands files targets passed start (branches.all id) ended) :
    Stands files targets (passed ++ vs) (start ++ prints) (after.all id) last := by
  induction hunfolds generalizing text source ss passed prints branches after ended last start with
  | nil =>
      cases hshows
      cases hparted
      cases halike
      cases hprinting
      simpa using h
  | @keep directory visit rest out hkept _ ih =>
      cases hshows with
      | cons hshow hshows =>
          cases hparted with
          | cons hstart hfull hparted =>
              cases halike with
              | @cons _ print _ rest hprint halike =>
                  obtain ⟨next, hnext, hstands⟩ :=
                    stands_of_shows hshow hkept hstart hfull hprint hprinting h
                  rw [List.append_cons passed, List.append_cons start]
                  exact ih (hnamed.mono (List.subset_cons_self _ _)) hshows hparted halike hnext
                    hstands
  | directive hopens _ _ ihInside ihRest =>
      cases hshows with
      | cons hshow hshows =>
          cases hshow
          cases hparted with
          | cons hstart _ hparted =>
              rw [hstart rfl] at h
              obtain ⟨mine, others, rfl, hmine, hothers⟩ := exists_split_of_forall₂ halike
              obtain ⟨middle, hprintMine, hprintOthers⟩ := hprinting.split
              obtain ⟨htarget, hinside⟩ := @NamedIn.opened _ _ _ [] _ _ _ _ hnamed hopens
              obtain ⟨partText, partSource, partSegments, partLast, hpart, hwhole, hend⟩ :=
                exists_parted_of_opens hopens
              have hbody := ihInside hinside hpart hwhole hmine hprintMine
                (.settled h.of_ended : Stands files targets [] start _ true)
              rw [List.append_cons passed, ← List.append_assoc]
              exact ihRest (hnamed.mono (List.subset_cons_self _ _)) hshows hparted hothers
                hprintOthers (.settled (hbody.settled_of_part hopens hend htarget))

-- Before each directive, what has been put out is settled.
theorem settled_before_directive {front rest before : List Visit} {ss : List Segment}
    {start : List Print} (hnamed : NamedIn files targets directory (front ++ .directive own :: rest))
    (hunfolds : Unfolds files directory front before)
    (hshows : List.Forall₂ (Shows text source) ss (front ++ .directive own :: rest))
    (hparted : Parted text true ss last) (halike : List.Forall₂ Alike before prints)
    (hprinting : Printing branches prints after) (h : Settled files targets start) :
    Settled files targets (start ++ prints) := by
  obtain ⟨passed, others, rfl, hpassed, hothers⟩ := exists_split_of_forall₂ hshows.flip
  obtain ⟨middle, hfront, hrest⟩ := hparted.split
  have hstands := stands_of_unfolds hunfolds (hnamed.mono (List.subset_append_left _ _))
    hpassed.flip hfront halike hprinting (.settled h : Stands files targets [] start _ true)
  cases hothers with
  | cons hshow _ =>
      cases hshow with
      | insert =>
          cases hrest with
          | cons hstart _ _ =>
              rw [hstart rfl] at hstands
              exact hstands.of_ended

-- So it is behind what an include puts out.
theorem settled_of_opens {inner : List Node} {start : List Print}
    (hopens : Opens files directory own location inside)
    (hunfolds : Unfolds files location.directory (visits inside) (visits inner))
    (hnamed : NamedIn files targets location.directory (visits inside))
    (htarget : targets (location, own.part)) (halike : List.Forall₂ Alike (visits inner) prints)
    (hprinting : Printing branches prints after) (h : Settled files targets start) :
    Settled files targets (start ++ prints) := by
  obtain ⟨text, source, ss, last, hshows, hparted, hend⟩ := exists_parted_of_opens hopens
  have hstands := stands_of_unfolds hunfolds hnamed hshows hparted halike hprinting
    (.settled h : Stands files targets [] start _ true)
  exact hstands.settled_of_part hopens hend htarget

-- And so it is behind an include at any depth.
theorem settled_of_placed {vs before body : List Visit} {target : Target} {nodes : List Node}
    (hplaced : Placed files directory vs before body target nodes) {ss : List Segment}
    {start : List Print} (hnamed : NamedIn files targets directory vs)
    (hshows : List.Forall₂ (Shows text source) ss vs) (hparted : Parted text true ss last)
    (halike : List.Forall₂ Alike (before ++ body) prints) (hprinting : Printing branches prints after)
    (h : Settled files targets start) : Settled files targets (start ++ prints) := by
  induction hplaced generalizing text source ss prints branches after last start with
  | here hfront hopens hinside =>
      obtain ⟨own, mine, rfl, hown, hmine⟩ := exists_split_of_forall₂ halike
      obtain ⟨middle, hprintOwn, hprintMine⟩ := hprinting.split
      have hbefore := settled_before_directive hnamed hfront hshows hparted hown hprintOwn h
      obtain ⟨htarget, hbelow⟩ := hnamed.opened hopens
      rw [← List.append_assoc]
      exact settled_of_opens hopens hinside hbelow htarget hmine hprintMine hbefore
  | deeper hfront hopens _ ih =>
      rw [List.append_assoc] at halike
      obtain ⟨own, mine, rfl, hown, hmine⟩ := exists_split_of_forall₂ halike
      obtain ⟨middle, hprintOwn, hprintMine⟩ := hprinting.split
      have hbefore := settled_before_directive hnamed hfront hshows hparted hown hprintOwn h
      obtain ⟨-, hbelow⟩ := hnamed.opened hopens
      obtain ⟨partText, partSource, partSegments, partLast, hpart, hwhole, -⟩ :=
        exists_parted_of_opens hopens
      rw [← List.append_assoc]
      exact ih hbelow hpart hwhole hmine hprintMine hbefore

end Steps

-- What follows an include starts a line of the document just where what is put out last is not the
-- end of an included part that stops within a line. So it is for what the include puts out by
-- itself. Nothing is said where this is what stands before the fence of a block that leaves nothing.
theorem lines_apart_of_runDocument {σ : Type} {executor : Executor σ} {registry : Registry}
    {layout : Layout} {tree : FileTree} {limit source : Nat} {directory : String}
    {text : List Char} {document whole : Document} {map next : SourceMap} {classified : Classified}
    {progress after : Progress σ} {executed : List Executed}
    (hparse : parseDocument text source = .ok document)
    (hresolve : (resolve tree limit directory document).run map = (.ok whole, next))
    (hclassify : classify registry executor.language whole = .ok classified)
    (hrun : (runDocument executor classified).run progress = (.ok executed, after)) :
    ∃ prints, (printVisits executor layout (visits classified.document.nodes) []).run
        (progress.pending classified) = (.ok prints, after) ∧
      printed prints = assemble layout executed ∧
      ∀ before body target inside, Placed ⟨tree, map, next⟩ directory (visits document.nodes) before
          body target inside →
        ∃ front own back, prints = front ++ own ++ back ∧ front.length = before.length ∧
          own.length = body.length ∧
          (¬ LeavesMark own →
            (atLineStart (printed own).toList = true ↔
              ¬ LeavesOpen ⟨tree, map, next⟩ (Through ⟨tree, map, next⟩ target inside) own)) ∧
          (¬ LeavesMark (front ++ own) →
            (atLineStart (printed (front ++ own)).toList = true ↔
              ¬ LeavesOpen ⟨tree, map, next⟩ (Below ⟨tree, map, next⟩ directory document.nodes)
                (front ++ own))) := by
  obtain ⟨-, -, hflat, -⟩ := flat_of_resolve hresolve
  obtain ⟨prints, last, hprints, hprinted, halike, hprinting⟩ :=
    exists_prints_of_runDocument layout hclassify hrun
  refine ⟨prints, hprints, hprinted, fun before body target inside hplaced => ?_⟩
  obtain ⟨rest, hrest⟩ := hplaced.split (unfolds_of_flat hflat)
  rw [hrest] at halike
  obtain ⟨shown, back, rfl, hshown, -⟩ := exists_split_of_forall₂ halike
  obtain ⟨front, own, rfl, hfront, hown⟩ := exists_split_of_forall₂ hshown
  obtain ⟨middle, hprinting, -⟩ := hprinting.split
  obtain ⟨start, -, hprintOwn⟩ := hprinting.split
  refine ⟨front, own, back, rfl, hfront.length_eq.symm, hown.length_eq.symm, ?_, ?_⟩
  · obtain ⟨place, directive, location, inner, rfl, hopens, rfl, hunfolds⟩ := hplaced.opens
    have hnamed : NamedIn ⟨tree, map, next⟩ (Through ⟨tree, map, next⟩ (location, directive.part)
        inside) location.directory (visits inside) :=
      (namedIn_below _ _ inside).of_imp fun _ hbelow => .inr hbelow
    exact (settled_of_opens hopens hunfolds hnamed (.inl rfl) hown hprintOwn
      (.line rfl : Settled _ _ [])).atLineStart_iff
  · obtain ⟨last, hparted, -⟩ := @parted_segments text [] text [] _ (by simp) rfl
    exact (settled_of_placed hplaced (namedIn_below _ directory document.nodes)
      (shows_parseWindow hparse) hparted hshown hprinting
      (.line rfl : Settled _ _ [])).atLineStart_iff

-- A document that includes the one file of a tree and goes on behind it.
def oneFile (content : String) : FileTree := ⟨[(["a"], .file content.toUTF8)], []⟩

def asking : List Char := "!include a\nnext\n".toList

def askingInclude : Include := ⟨"a", none, ⟨0, ⟨0, 10⟩, 1⟩⟩

def askingNext : Prose := ⟨"next\n", ⟨0, ⟨11, 16⟩, 2⟩⟩

def askingDocument : Document := ⟨0, [.directive askingInclude, .prose askingNext]⟩

def askingStart : SourceMap := SourceMap.empty.push ⟨"r", none, String.ofList asking⟩

def askingEnd (content : String) : SourceMap := askingStart.push ⟨"a", some ["a"], content⟩

theorem parse_asking : parseDocument asking 0 = .ok askingDocument := by
  have hblocks : Markdown.blocks (slice asking 0 (byteCount asking)) = ([], []) := by cbv
  have hsegments : segments asking ⟨0, byteCount asking⟩ =
      [.mark 0 "!include a\n".toList ⟨.insert, "!include ".toList, "a".toList⟩,
        .prose 11 "next\n".toList] := by
    rw [segments, regions, hblocks]
    decide +kernel
  rw [parseDocument, parseWindow, hsegments]
  cbv

theorem textAt_oneFile (content : String) : (oneFile content).textAt ["a"] = .ok content :=
  FileTree.textAt_of_entry? rfl

theorem locate_oneFile (content : String) : (oneFile content).locate "a" = .ok ["a"] := by cbv

theorem read_oneFile (content : String) :
    askingStart.read (oneFile content) "a" = (.ok 1, askingEnd content) :=
  SourceMap.read_of_new (locate_oneFile content) rfl (textAt_oneFile content)

theorem open_oneFile {content : String} {nodes : List Node} (limit : Nat)
    (hpart : partDocument 1 content "a" askingInclude = .ok ⟨1, nodes⟩) :
    (openInclude (oneFile content) (limit + 1) ⟨"", [], 0⟩ askingInclude).run askingStart =
      (.ok (⟨1, nodes⟩, Site.enter ⟨"", [], 0⟩ ["a"] askingInclude), askingEnd content) := by
  have hpath : Path.join "" "a" = "a" := by cbv
  have htext : (askingEnd content).text 1 = content := SourceMap.text_push_size askingStart _
  have hload : askingStart.load (oneFile content) (Path.join "" "a") =
      .ok (1, askingEnd content) := by
    rw [hpath]
    exact SourceMap.load_of_read_eq_ok (read_oneFile content)
  refine run_openInclude (hpath ▸ locate_oneFile content) rfl (Nat.succ_pos limit) hload ?_
  rw [htext, show Path.join (Site.mk "" [] 0).directory askingInclude.path = "a" from hpath]
  exact hpart

theorem run_resolve_oneFile {content : String} {nodes : List Node} (limit : Nat)
    (hpart : partDocument 1 content "a" askingInclude = .ok ⟨1, nodes⟩)
    (hfree : anyDirective nodes = false) :
    (resolve (oneFile content) (limit + 1) "" askingDocument).run askingStart =
      (.ok ⟨0, nodes ++ [.prose askingNext]⟩, askingEnd content) := by
  have hfile : (includedNodes (oneFile content) (limit + 1) (limit + 2) ⟨"", [], 0⟩
      askingInclude).run askingStart = (.ok nodes, askingEnd content) := by
    rw [includedNodes, Action.run_bind_of_ok (open_oneFile limit hpart)]
    dsimp only
    rw [expandNodes_of_free hfree]
    rfl
  have hsite : rootSite askingStart "" askingDocument = ⟨"", [], 0⟩ := rfl
  rw [run_resolve, hsite, askingDocument, expandNodes_directive, Action.run_bind_of_ok]
  · rfl
  · rw [Action.run_bind_of_ok hfile]
    rfl

theorem opens_oneFile {content : String} {nodes : List Node}
    (hpart : partDocument 1 content "a" askingInclude = .ok ⟨1, nodes⟩) :
    Opens ⟨oneFile content, askingStart, askingEnd content⟩ "" askingInclude ["a"] nodes := by
  obtain ⟨location, hopens, -, -, hsite⟩ :=
    @openInclude_eq_ok ⟨oneFile content, askingStart, askingEnd content⟩ _ _ _ _ _ _ _
      (.refl askingStart) (.refl (askingEnd content)) (open_oneFile 0 hpart)
  have hlocation : location = ["a"] := by
    simp only [Site.enter, List.nil_append, Site.mk.injEq, List.cons.injEq, Included.mk.injEq] at hsite
    exact hsite.2.1.1.1.symm
  subst hlocation
  exact hopens

theorem not_endsOpen_oneFile {content : String} {next : SourceMap}
    (hline : atLineStart content.toList = true) :
    ¬ EndsOpen ⟨oneFile content, askingStart, next⟩ (["a"], none) := by
  rintro ⟨text, before, inside, after, htext, hsplit, hrange, hopen⟩
  have hread : Files.text ⟨oneFile content, askingStart, next⟩ ["a"] = .ok content :=
    textAt_oneFile content
  cases hread.symm.trans htext
  obtain ⟨hstart, hstop⟩ := ByteRange.mk.inj (Option.some.inj hrange)
  rw [hsplit] at hstop
  obtain rfl := eq_nil_of_byteCount_le_zero hstart.ge
  obtain rfl : after = [] := eq_nil_of_byteCount_le_zero (by simpa using hstop.le)
  rw [hsplit, List.nil_append, List.append_nil] at hline
  exact absurd (hopen.symm.trans hline) Bool.false_ne_true

theorem not_below_of_free {files : Files} {directory : String} {nodes : List Node}
    {target : Target} (hfree : anyDirective nodes = false) : ¬ Below files directory nodes target := by
  rintro ⟨chain, own, place, location, hreached, -, -⟩
  cases hreached with
  | own hmem => exact not_mem_visits_of_free hfree own hmem
  | inner hmem _ _ => exact not_mem_visits_of_free hfree _ hmem

theorem target_of_below_oneFile {content : String} {nodes : List Node} {target : Target}
    (hpart : partDocument 1 content "a" askingInclude = .ok ⟨1, nodes⟩)
    (hfree : anyDirective nodes = false)
    (hbelow : Below ⟨oneFile content, askingStart, askingEnd content⟩ "" askingDocument.nodes target) :
    target = (["a"], none) := by
  have hopens := opens_oneFile hpart
  have honly : ∀ own, .directive own ∈ visits askingDocument.nodes → own = askingInclude := by
    intro own hmem
    simpa [askingDocument, visits, Node.visits] using hmem
  obtain ⟨chain, own, place, location, hreached, hlocate, rfl⟩ := hbelow
  cases hreached with
  | own hmem =>
      obtain rfl := honly own hmem
      cases hlocate.symm.trans hopens.located
      rfl
  | @inner _ _ _ _ outer _ _ _ hmem hother hreached =>
      obtain rfl := honly outer hmem
      obtain ⟨rfl, rfl⟩ := hopens.unique hother
      exact (not_below_of_free hfree ⟨_, own, place, location, hreached, hlocate, rfl⟩).elim

def lineProse (content : String) (stop : Nat) : Prose := ⟨content, ⟨1, ⟨0, stop⟩, 1⟩⟩

def lineDocument (content : String) (stop : Nat) : Document :=
  ⟨0, [.prose (lineProse content stop), .prose askingNext]⟩

theorem placed_oneFile {content : String} {next : SourceMap} {stop : Nat}
    (hopens : Opens ⟨oneFile content, askingStart, next⟩ "" askingInclude ["a"]
      [.prose (lineProse content stop)]) :
    Placed ⟨oneFile content, askingStart, next⟩ "" (visits askingDocument.nodes) []
      (visits [.prose (lineProse content stop)]) (["a"], none)
      [.prose (lineProse content stop)] :=
  @Placed.here _ _ [] [.prose askingNext] _ _ _ _ _ (.nil "") hopens (.keep rfl (.nil _))

-- A file that is one piece of prose.
theorem part_line {content : String}
    (hsegments : segments content.toList ⟨0, byteCount content.toList⟩ = [.prose 0 content.toList]) :
    partDocument 1 content "a" askingInclude =
      .ok ⟨1, [.prose (lineProse content (byteCount content.toList))]⟩ := by
  have hspan : Span.of content.toList 1 ⟨0, byteCount content.toList⟩ =
      (lineProse content (byteCount content.toList)).span := by
    simp [Span.of, lineAt, takeBytes_zero, lineProse]
  rw [partDocument, askingInclude, partRange?]
  dsimp only
  rw [parseWindow, hsegments]
  simp only [buildNodes, List.foldlM_cons, List.foldlM_nil, applySegment, Nat.zero_add, hspan,
    String.ofList_toList]
  rfl

theorem part_whole : partDocument 1 "A\n" "a" askingInclude =
    .ok ⟨1, [.prose (lineProse "A\n" 2)]⟩ := by
  have hblocks : Markdown.blocks (slice "A\n".toList 0 (byteCount "A\n".toList)) = ([], []) := by
    cbv
  refine part_line ?_
  rw [segments, regions, hblocks]
  decide +kernel

theorem classify_line (content : String) (stop : Nat) :
    classify .standard Executor.calc.language (lineDocument content stop) =
      .ok ⟨lineDocument content stop, "calc"⟩ := rfl

theorem run_line (content : String) (stop : Nat) :
    (runDocument Executor.calc ⟨lineDocument content stop, "calc"⟩).run (.start () "block") =
      (.ok [.prose content, .prose "next\n"], .start () "block") := rfl

theorem prints_line (content : String) (stop : Nat) :
    (printVisits Executor.calc ⟨"artifacts", "text"⟩ (visits (lineDocument content stop).nodes)
        []).run (.start () "block") =
      (.ok [(.prose (lineProse content stop), some content), (.prose askingNext, some "next\n")],
        .start () "block") := rfl

theorem lines_apart_whole :
    parseDocument asking 0 = .ok askingDocument ∧
    (resolve (oneFile "A\n") 1 "" askingDocument).run askingStart =
      (.ok (lineDocument "A\n" 2), askingEnd "A\n") ∧
    (runDocument Executor.calc ⟨lineDocument "A\n" 2, "calc"⟩).run (.start () "block") =
      (.ok [.prose "A\n", .prose "next\n"], .start () "block") ∧
    ∃ front own back, printed (front ++ own ++ back) = "A\nnext\n" ∧ own.length = 1 ∧
      atLineStart (printed own).toList = true ∧
      atLineStart (printed (front ++ own)).toList = true := by
  have hresolve := run_resolve_oneFile 0 part_whole rfl
  refine ⟨parse_asking, hresolve, run_line "A\n" 2, ?_⟩
  obtain ⟨prints, hprints, hprinted, hplaced⟩ :=
    @lines_apart_of_runDocument _ _ _ ⟨"artifacts", "text"⟩ _ _ _ _ _ _ _ _ _ _ _ _ _ parse_asking
      hresolve (classify_line "A\n" 2) (run_line "A\n" 2)
  obtain ⟨front, own, back, rfl, -, hown, hself, hall⟩ :=
    hplaced _ _ _ _ (placed_oneFile (opens_oneFile part_whole))
  have hfree : ∀ block, (.code block, some "") ∉ front ++ own ++ back := by
    rw [Except.ok.inj (Prod.mk.inj (hprints.symm.trans (prints_line "A\n" 2))).1]
    simp
  refine ⟨front, own, back, hprinted.trans (by decide), hown, ?_, ?_⟩
  · refine (hself ?_).mpr (not_leavesOpen fun target htarget => ?_)
    · rintro ⟨earlier, piece, block, later, rfl, -⟩
      exact hfree block (by simp)
    · rcases htarget with rfl | hbelow
      · exact not_endsOpen_oneFile rfl
      · exact (not_below_of_free rfl hbelow).elim
  · refine (hall ?_).mpr (not_leavesOpen fun target hbelow => ?_)
    · rintro ⟨earlier, piece, block, later, hshown, -⟩
      exact hfree block (by simp [hshown])
    · rw [target_of_below_oneFile part_whole rfl hbelow]
      exact not_endsOpen_oneFile rfl

theorem part_open : partDocument 1 "A" "a" askingInclude =
    .ok ⟨1, [.prose (lineProse "A" 1)]⟩ := by
  have hblocks : Markdown.blocks (slice "A".toList 0 (byteCount "A".toList)) = ([], []) := by
    cbv
  refine part_line ?_
  rw [segments, regions, hblocks]
  decide +kernel

-- A block of a list that leaves nothing: what stands before its fence stays.
def traceContent : String := "- ```calc {silent}\n  ```\n"

def traceNodes : List Node :=
  [.prose ⟨"- ", ⟨1, ⟨0, 2⟩, 1⟩⟩,
    .code ⟨some "calc", "calc", ["silent"], .empty, 0, "```", "", "  ", ⟨1, ⟨2, 25⟩, 1⟩⟩]

theorem part_trace : partDocument 1 traceContent "a" askingInclude = .ok ⟨1, traceNodes⟩ := by
  have hblocks : Markdown.blocks (slice traceContent.toList 0 25) =
      ([.fenced ⟨2, 24⟩ "calc {silent}".toList []], []) := by
    cbv
  have hsegments : segments traceContent.toList ⟨0, 25⟩ =
      [.prose 0 "- ".toList, .fenced ⟨2, 25⟩ "calc {silent}".toList []] := by
    rw [segments, regions, hblocks]
    decide +kernel
  have hcount : byteCount traceContent.toList = 25 := by decide +kernel
  rw [partDocument, askingInclude, partRange?]
  dsimp only
  rw [hcount, parseWindow, hsegments]
  cbv

theorem check_oneFile {content : String} {nodes : List Node} {classified : Classified}
    (hpart : partDocument 1 content "a" askingInclude = .ok ⟨1, nodes⟩)
    (hfree : anyDirective nodes = false)
    (hclassify : classify .standard Executor.calc.language ⟨0, nodes ++ [.prose askingNext]⟩ =
      .ok classified) :
    (check (oneFile content) .standard (.text "r" (String.ofList asking)) ""
      Executor.calc.language).run .empty = (.ok classified, askingEnd content) := by
  have hload : (Root.load (oneFile content) (.text "r" (String.ofList asking))).run .empty =
      (.ok askingDocument, askingStart) := by
    rw [run_load_text, String.toList_ofList]
    exact congrArg (·, askingStart) parse_asking
  have hresolve : (resolve (oneFile content) Settings.standard.limit "" askingDocument).run
      askingStart = (.ok ⟨0, nodes ++ [.prose askingNext]⟩, askingEnd content) :=
    run_resolve_oneFile 49 hpart hfree
  have hregistry : Settings.standard.registry = .standard := rfl
  rw [check, Action.run_bind_of_ok hload, Action.run_bind_of_ok hresolve, hregistry, hclassify]
  rfl

theorem expand_oneFile {content : String} {nodes : List Node} {classified : Classified}
    (hpart : partDocument 1 content "a" askingInclude = .ok ⟨1, nodes⟩)
    (hfree : anyDirective nodes = false)
    (hclassify : classify .standard Executor.calc.language ⟨0, nodes ++ [.prose askingNext]⟩ =
      .ok classified) :
    expand Executor.calc () (oneFile content) .standard (.text "r" (String.ofList asking)) "" =
      ((runClassified Executor.calc () .standard classified).1, askingEnd content) := by
  rw [expand, expandFrom, check_oneFile hpart hfree hclassify]

theorem leavesOpen_line :
    LeavesOpen ⟨oneFile "A", askingStart, askingEnd "A"⟩
      (Through ⟨oneFile "A", askingStart, askingEnd "A"⟩ (["a"], none) [.prose (lineProse "A" 1)])
      [(.prose (lineProse "A" 1), some "A")] := by
  refine ⟨[], lineProse "A" 1, [], (["a"], none), rfl, rfl, rfl, .inl rfl, ?_, ?_⟩
  · exact ⟨"A", [], ['A'], [], textAt_oneFile "A", rfl, rfl, rfl⟩
  · exact ⟨"", askingInclude, _, opens_oneFile part_open, rfl, rfl⟩

-- Where a file does not end its line, the line behind the include goes on with it. So it does
-- where all parts end their lines and a block leaves only what stands before its fence.
theorem lines_merge_open :
    parseDocument asking 0 = .ok askingDocument ∧
    Placed ⟨oneFile "A", askingStart, askingEnd "A"⟩ "" (visits askingDocument.nodes) []
      (visits [.prose (lineProse "A" 1)]) (["a"], none) [.prose (lineProse "A" 1)] ∧
    (printVisits Executor.calc ⟨"artifacts", "text"⟩ (visits (lineDocument "A" 1).nodes) []).run
        (.start () "block") =
      (.ok [(.prose (lineProse "A" 1), some "A"), (.prose askingNext, some "next\n")],
        .start () "block") ∧
    LeavesOpen ⟨oneFile "A", askingStart, askingEnd "A"⟩
      (Through ⟨oneFile "A", askingStart, askingEnd "A"⟩ (["a"], none) [.prose (lineProse "A" 1)])
      [(.prose (lineProse "A" 1), some "A")] ∧
    atLineStart (printed [(.prose (lineProse "A" 1), some "A")]).toList = false ∧
    (expand Executor.calc () (oneFile "A") .standard (.text "r" (String.ofList asking)) "").1 =
      .ok ⟨"Anext\n", []⟩ ∧
    ¬ EndsOpen ⟨oneFile traceContent, askingStart, askingEnd traceContent⟩ (["a"], none) ∧
    (expand Executor.calc () (oneFile traceContent) .standard (.text "r" (String.ofList asking))
      "").1 = .ok ⟨"- next\n", []⟩ := by
  refine ⟨parse_asking, placed_oneFile (opens_oneFile part_open), prints_line "A" 1,
    leavesOpen_line, by decide, ?_, not_endsOpen_oneFile (by decide +kernel), ?_⟩
  · rw [expand_oneFile part_open rfl (classify_line "A" 1)]
    cbv
  · rw [expand_oneFile part_trace rfl rfl]
    cbv

end LiveDoc
