import LiveDoc.Proofs.FileTree.Replacing
import LiveDoc.Run.Expansion
import Mathlib

namespace LiveDoc

-- One tree has come from another by making directories and by writing files for artifacts, each of
-- them from its beginning on.
def FileTree.Takes (artifacts : List Artifact) (tree next : FileTree) : Prop :=
  ∀ location, next.entry? location = tree.entry? location ∨
    tree.entry? location = none ∧ next.entry? location = some .directory ∨
    ∃ artifact ∈ artifacts, ∃ count,
      next.entry? location = some (.file (artifact.bytes.extract 0 count))

section Takes

variable {artifacts : List Artifact} {tree middle next : FileTree}

theorem FileTree.Takes.refl (artifacts : List Artifact) (tree : FileTree) :
    tree.Takes artifacts tree := fun _ => .inl rfl

theorem FileTree.Takes.trans (h : FileTree.Takes artifacts tree middle)
    (hnext : FileTree.Takes artifacts middle next) : FileTree.Takes artifacts tree next := by
  intro location
  rcases hnext location with hlater | ⟨hnone, hlater⟩ | hlater
  · rw [hlater]
    exact h location
  · rcases h location with hfirst | ⟨-, hfirst⟩ | ⟨_, -, _, hfirst⟩
    · exact .inr (.inl ⟨hfirst.symm.trans hnone, hlater⟩)
    · cases hfirst.symm.trans hnone
    · cases hfirst.symm.trans hnone
  · exact .inr (.inr hlater)

theorem FileTree.GainsDirectories.takes (h : tree.GainsDirectories next)
    (artifacts : List Artifact) : FileTree.Takes artifacts tree next := by
  intro location
  rcases h.2 location with hsame | hnew
  · exact .inl hsame
  · exact .inr (.inl hnew)

theorem takes_set {artifact : Artifact} {path : String} {place : Location} (count : Nat)
    (hmem : artifact ∈ artifacts) (h : tree.target path = .ok place) :
    FileTree.Takes artifacts tree (tree.set place (.file (artifact.bytes.extract 0 count))) := by
  obtain ⟨-, -, hparent⟩ := FileTree.target_eq_ok h
  intro location
  by_cases hsame : location = place
  · rw [hsame]
    exact .inr (.inr ⟨artifact, hmem, count, FileTree.entry?_set_self ..⟩)
  · exact .inl (FileTree.entry?_set_of_ne hparent hsame)

theorem takes_overwrite {artifact : Artifact} (device : Device) (path : String)
    (hmem : artifact ∈ artifacts) :
    FileTree.Takes artifacts tree (tree.overwrite device path artifact.bytes).1 := by
  rcases hwrite : tree.overwrite device path artifact.bytes with ⟨next, cause | done⟩
  · rcases FileTree.overwrite_eq_error hwrite with rfl | ⟨place, count, htarget, rfl⟩
    · exact .refl artifacts next
    · exact takes_set count hmem htarget
  · obtain ⟨place, htarget, rfl⟩ := FileTree.overwrite_eq_ok hwrite
    have htakes := takes_set artifact.bytes.size hmem htarget
    rwa [ByteArray.extract_zero_size] at htakes

theorem takes_writeArtifacts (tree : FileTree) (device : Device) (directory : String)
    {written : List Artifact} (hwritten : ∀ artifact ∈ written, artifact ∈ artifacts) :
    FileTree.Takes artifacts tree (writeArtifacts tree device directory written).1 := by
  induction written generalizing tree with
  | nil => exact .refl artifacts tree
  | cons artifact rest ih =>
      obtain ⟨hfirst, hrest⟩ := List.forall_mem_cons.mp hwritten
      have htakes := @takes_overwrite artifacts tree artifact device
        (Path.join directory artifact.name) hfirst
      unfold writeArtifacts
      dsimp only
      split
      · rename_i hwrite
        rwa [hwrite] at htakes
      · rename_i next _ hwrite
        rw [hwrite] at htakes
        exact htakes.trans (ih next hrest)

-- What persisting leaves, also where it fails.
theorem takes_persistArtifacts (tree : FileTree) (device : Device) (directory : String)
    (artifacts : List Artifact) :
    FileTree.Takes artifacts tree (persistArtifacts tree directory artifacts device).1 := by
  have hmade := (FileTree.gains_makeDirectories tree directory).takes artifacts
  unfold persistArtifacts
  split
  · exact .refl artifacts tree
  · split
    · rename_i hfailed
      rwa [hfailed] at hmade
    · rename_i next _ hdone
      rw [hdone] at hmade
      exact hmade.trans (takes_writeArtifacts next device directory fun _ h => h)

-- Where the document cannot be written, no part of it is left.
theorem tree_of_write_eq_error {expansion : Expansion} {device : Device}
    {output directory place : String}
    (h : (expansion.write tree output directory device).2 = .error place) :
    (expansion.write tree output directory device).1 =
      (persistArtifacts tree directory expansion.artifacts device).1 := by
  unfold Expansion.write at h ⊢
  rcases hpersist : persistArtifacts tree directory expansion.artifacts device with
    ⟨left, failed | paths⟩
  · rfl
  · rw [hpersist] at h
    dsimp only at h ⊢
    rcases hreplace : left.replace device output expansion.markdown.toUTF8 with ⟨last, failed | done⟩
    · exact FileTree.replace_eq_error hreplace
    · rw [hreplace] at h
      cases h

end Takes

end LiveDoc
