import LiveDoc.Proofs.FileTree.Paths
import LiveDoc.Proofs.Text.Cut
import LiveDoc.Run.Artifact
import Mathlib

namespace LiveDoc

-- The digits of a block's number in a name.
def paddedDigits (n : Nat) : List Char :=
  List.replicate (3 - (toString n).length) '0' ++ Nat.toDigits 10 n

-- Zeros in front do not change a number.
theorem ofDigitChars_paddedDigits (n : Nat) : Nat.ofDigitChars 10 (paddedDigits n) 0 = n := by
  have hzeros : ∀ k, Nat.ofDigitChars 10 (List.replicate k '0') 0 = 0 := by
    intro k
    induction k with
    | zero => rfl
    | succ k ih => rwa [List.replicate_succ, Nat.ofDigitChars_cons]
  rw [paddedDigits, Nat.ofDigitChars_append, hzeros, Nat.ofDigitChars_ten_toDigits]

theorem isDigit_of_mem_toDigits {n : Nat} {c : Char} (h : c ∈ Nat.toDigits 10 n) :
    c.isDigit = true :=
  Nat.isDigit_of_mem_toDigits (by decide) (by decide) h

theorem isDigit_of_mem_paddedDigits {n : Nat} {c : Char} (h : c ∈ paddedDigits n) :
    c.isDigit = true := by
  rcases List.mem_append.mp h with h | h
  · rw [List.eq_of_mem_replicate h]
    rfl
  · exact isDigit_of_mem_toDigits h

-- A name as it is written: the stem, the number of the block, the ordinal and the extension.
theorem toList_nameOf (stem : String) (block ordinal : Nat) (extension : String) :
    (ArtifactStore.nameOf stem block ordinal extension).toList =
      stem.toList ++ '-' :: (paddedDigits block ++
        '-' :: (Nat.toDigits 10 ordinal ++ '.' :: extension.toList)) := by
  simp [ArtifactStore.nameOf, Text.padded, Text.toList_pushn, paddedDigits]

theorem append_cons_inj {α : Type} {mark : α} {front other back ending : List α}
    (hfront : mark ∉ front) (hother : mark ∉ other)
    (h : front ++ mark :: back = other ++ mark :: ending) : front = other ∧ back = ending := by
  induction front generalizing other with
  | nil =>
      cases other with
      | nil => exact ⟨rfl, (List.cons.inj h).2⟩
      | cons a rest =>
          obtain ⟨rfl, -⟩ := List.cons.inj h
          exact (hother (List.mem_cons_self ..)).elim
  | cons a rest ih =>
      cases other with
      | nil =>
          obtain ⟨rfl, -⟩ := List.cons.inj h
          exact (hfront (List.mem_cons_self ..)).elim
      | cons b more =>
          obtain ⟨rfl, hrest⟩ := List.cons.inj h
          have htail := ih (fun hmem => hfront (List.mem_cons_of_mem _ hmem))
            (fun hmem => hother (List.mem_cons_of_mem _ hmem)) hrest
          exact ⟨by rw [htail.1], htail.2⟩

-- Digits end where a mark follows, so a name can be read in one way only, whatever its extension.
theorem nameOf_inj {stem : String} {block other ordinal place : Nat} {extension ending : String}
    (h : ArtifactStore.nameOf stem block ordinal extension =
      ArtifactStore.nameOf stem other place ending) : block = other ∧ ordinal = place := by
  have hchars := congrArg String.toList h
  rw [toList_nameOf stem block, toList_nameOf stem other, List.append_cancel_left_eq,
    List.cons_inj_right] at hchars
  have hdash : ∀ n, '-' ∉ paddedDigits n := fun n hmem =>
    absurd (isDigit_of_mem_paddedDigits hmem) (by decide)
  have hdot : ∀ n, '.' ∉ Nat.toDigits 10 n := fun n hmem =>
    absurd (isDigit_of_mem_toDigits hmem) (by decide)
  obtain ⟨hblock, hrest⟩ := append_cons_inj (hdash block) (hdash other) hchars
  obtain ⟨hordinal, -⟩ := append_cons_inj (hdot ordinal) (hdot place) hrest
  refine ⟨?_, ?_⟩
  · calc
      block = Nat.ofDigitChars 10 (paddedDigits block) 0 := (ofDigitChars_paddedDigits block).symm
      _ = Nat.ofDigitChars 10 (paddedDigits other) 0 := by rw [hblock]
      _ = other := ofDigitChars_paddedDigits other
  · calc
      ordinal = Nat.ofDigitChars 10 (Nat.toDigits 10 ordinal) 0 :=
        Nat.ofDigitChars_ten_toDigits.symm
      _ = Nat.ofDigitChars 10 (Nat.toDigits 10 place) 0 := by rw [hordinal]
      _ = place := Nat.ofDigitChars_ten_toDigits

theorem steps_nameOf {stem : String} {block ordinal : Nat} {extension : String}
    (hstem : '/' ∉ stem.toList) (hextension : '/' ∉ extension.toList) :
    steps (ArtifactStore.nameOf stem block ordinal extension) =
      [.name (ArtifactStore.nameOf stem block ordinal extension)] := by
  have hdash : '-' ∈ (ArtifactStore.nameOf stem block ordinal extension).toList := by
    rw [toList_nameOf]
    exact List.mem_append_right _ (List.mem_cons_self ..)
  have hslash : '/' ∉ (ArtifactStore.nameOf stem block ordinal extension).toList := by
    have hpadded : '/' ∉ paddedDigits block := fun hmem =>
      absurd (isDigit_of_mem_paddedDigits hmem) (by decide)
    have hdigits : '/' ∉ Nat.toDigits 10 ordinal := fun hmem =>
      absurd (isDigit_of_mem_toDigits hmem) (by decide)
    have hmarks : '/' ≠ '-' ∧ '/' ≠ '.' := by decide
    simp only [toList_nameOf, List.mem_append, List.mem_cons, hstem, hextension, hpadded, hdigits,
      hmarks.1, hmarks.2, or_self, not_false_eq_true]
  -- No dot name holds a hyphen.
  refine steps_of_component hslash ?_ ?_ ?_ <;>
    · intro heq
      rw [heq] at hdash
      exact absurd hdash (by decide)

end LiveDoc
