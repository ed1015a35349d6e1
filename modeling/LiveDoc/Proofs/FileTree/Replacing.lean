import LiveDoc.FileTree.Device
import LiveDoc.Proofs.FileTree.Trails

namespace LiveDoc.FileTree

variable {tree next : FileTree} {device : Device} {location place last : Location}
  {path : String} {bytes : ByteArray}

theorem set_set (tree : FileTree) (location : Location) (entry other : Entry) :
    (tree.set location entry).set location other = tree.set location other := by
  have hkept : (tree.set location entry).entries.filter (fun e => e.1 != location) =
      tree.entries.filter fun e => e.1 != location := by
    rw [set, List.filter_append, List.filter_filter]
    simp
  rw [set, hkept]
  rfl

-- What is new to a tree can be taken away again.
theorem remove_set (h : tree.entry? location = none) (entry : Entry) :
    (tree.set location entry).remove location = tree := by
  have hothers : ∀ e ∈ tree.entries, (e.1 != location) = true := by
    intro e he
    refine bne_iff_ne.mpr fun hsame => entry?_eq_none_iff.mp h (.inr ⟨e, he, ?_⟩)
    rw [hsame]
  have hentries : (tree.set location entry).entries.filter (fun e => e.1 != location) =
      tree.entries := by
    rw [set, List.filter_append, List.filter_filter]
    simpa using fun place own hmem => bne_iff_ne.mp (hothers (place, own) hmem)
  rw [remove, hentries]
  rfl

-- A file is filled, or it holds what its machine has taken.
theorem fill_cases (tree : FileTree) (device : Device) (location : Location) (bytes : ByteArray) :
    tree.fill device location bytes = (tree.set location (.file bytes), .ok ()) ∨
      ∃ count, tree.fill device location bytes =
        (tree.set location (.file (bytes.extract 0 count)), .error .noSpace) := by
  unfold fill
  cases device.room tree location bytes with
  | none => exact .inl rfl
  | some count => exact .inr ⟨count, rfl⟩

theorem overwrite_eq_ok (h : tree.overwrite device path bytes = (next, .ok ())) :
    ∃ location, tree.target path = .ok location ∧ next = tree.set location (.file bytes) := by
  unfold overwrite at h
  cases htarget : tree.target path with
  | error cause =>
      rw [htarget] at h
      cases h
  | ok location =>
      rw [htarget] at h
      refine ⟨location, rfl, ?_⟩
      dsimp only at h
      rcases fill_cases (tree.set location (.file .empty)) device location bytes with
        hfill | ⟨count, hfill⟩
      · rw [hfill, set_set] at h
        cases h
        rfl
      · rw [hfill] at h
        cases h

-- What a write leaves where it fails: nothing new, or the beginning of its file.
theorem overwrite_eq_error {cause : PathError}
    (h : tree.overwrite device path bytes = (next, .error cause)) :
    next = tree ∨ ∃ location count, tree.target path = .ok location ∧
      next = tree.set location (.file (bytes.extract 0 count)) := by
  unfold overwrite at h
  cases htarget : tree.target path with
  | error cause =>
      rw [htarget] at h
      cases h
      exact .inl rfl
  | ok location =>
      rw [htarget] at h
      dsimp only at h
      rcases fill_cases (tree.set location (.file .empty)) device location bytes with
        hfill | ⟨count, hfill⟩
      · rw [hfill] at h
        cases h
      · rw [hfill, set_set] at h
        cases h
        exact .inr ⟨location, count, rfl, rfl⟩

section New

variable (hparent : tree.Present location.tail) (hnone : tree.entry? location = none)

include hparent

theorem isDirectoryAt_of_set (h : (tree.set location (.file bytes)).isDirectoryAt place = true) :
    tree.isDirectoryAt place = true ∧ place ≠ location := by
  have hentry := beq_iff_eq.mp h
  have hne : place ≠ location := by
    rintro rfl
    cases (entry?_set_self tree place (.file bytes)).symm.trans hentry
  exact ⟨beq_iff_eq.mpr ((entry?_set_of_ne hparent hne).symm.trans hentry), hne⟩

omit hparent in
theorem Leads.isDirectoryAt_of_last {links left : Nat} {todo : List Step}
    (h : tree.Leads links place todo left last) (hlast : tree.isDirectoryAt last = true) :
    tree.isDirectoryAt place = true := by
  cases h with
  | done => exact hlast
  | stay hplace | up hplace | enter hplace | follow hplace => exact hplace

-- A way to a directory goes past no new file.
theorem Leads.of_set {links left : Nat} {todo : List Step}
    (h : (tree.set location (.file bytes)).Leads links place todo left last)
    (hlast : (tree.set location (.file bytes)).isDirectoryAt last = true) :
    tree.Leads links place todo left last := by
  induction h with
  | done => exact .done
  | stay hplace _ ih => exact .stay (isDirectoryAt_of_set hparent hplace).1 (ih hlast)
  | up hplace _ ih => exact .up (isDirectoryAt_of_set hparent hplace).1 (ih hlast)
  | enter hplace hshort hentry hnolink hrest ih =>
      obtain ⟨-, hne⟩ := isDirectoryAt_of_set hparent (hrest.isDirectoryAt_of_last hlast)
      exact .enter (isDirectoryAt_of_set hparent hplace).1 hshort
        ((entry?_set_of_ne hparent hne).symm.trans hentry) hnolink (ih hlast)
  | @follow links left place last rest name target hplace hshort hentry hrest ih =>
      have hne : name :: place ≠ location := by
        intro hsame
        rw [hsame, entry?_set_self] at hentry
        cases hentry
      exact .follow (isDirectoryAt_of_set hparent hplace).1 hshort
        ((entry?_set_of_ne hparent hne).symm.trans hentry) (ih hlast)

include hnone

-- The new file, with its bytes, comes to the slot that a path has in the tree without it.
theorem rename_set_eq_ok (h : (tree.set location (.file bytes)).rename location path = .ok next) :
    ∃ name front place, steps path = front ++ [.name name] ∧
      tree.walk false maxLinks (tree.origin path) front = .ok place ∧
      tree.isDirectoryAt place = true ∧ tree.entry? (name :: place) ≠ some .directory ∧
      next = tree.set (name :: place) (.file bytes) := by
  unfold rename at h
  cases hslot : (tree.set location (.file bytes)).slot path with
  | error cause =>
      rw [hslot] at h
      cases h
  | ok goal =>
      obtain ⟨name, front, place, rfl, hsteps, hwalk, hplace, -⟩ := slot_eq_ok hslot
      obtain ⟨left, hleads⟩ := walk_eq_ok_iff.mp hwalk
      rw [hslot] at h
      simp only [bind, Except.bind] at h
      split at h
      · cases h
      · rename_i hgoal
        rw [entry?_set_self, remove_set hnone] at h
        cases h
        refine ⟨name, front, place, hsteps,
          walk_eq_ok_iff.mpr ⟨left, hleads.of_set hparent hplace⟩,
          (isDirectoryAt_of_set hparent hplace).1, fun hdirectory => hgoal ?_, rfl⟩
        have hne : name :: place ≠ location := by
          intro hsame
          cases (hsame ▸ hdirectory).symm.trans hnone
        exact beq_iff_eq.mpr ((entry?_set_of_ne hparent hne).trans hdirectory)

end New

theorem vacant_eq_ok {directory : String} {tries index : Nat}
    (h : tree.vacant device directory tries index = .ok location) :
    tree.Present location.tail ∧ tree.entry? location = none := by
  induction tries generalizing index with
  | zero => cases h
  | succ tries ih =>
      unfold vacant at h
      dsimp only at h
      split at h
      · exact ih h
      · exact free_eq_ok h

-- A replacement puts one whole file in the directory that the path names, and nothing else.
theorem replace_eq_ok (h : tree.replace device path bytes = (next, .ok ())) :
    ∃ name front place, steps path = front ++ [.name name] ∧
      tree.walk false maxLinks (tree.origin path) front = .ok place ∧
      tree.isDirectoryAt place = true ∧ tree.entry? (name :: place) ≠ some .directory ∧
      next = tree.set (name :: place) (.file bytes) := by
  unfold replace at h
  dsimp only at h
  split at h
  · cases h
  · rename_i location hvacant
    obtain ⟨hparent, hnone⟩ := vacant_eq_ok hvacant
    rcases fill_cases (tree.set location (.file .empty)) device location bytes with
      hfill | ⟨count, hfill⟩
    · rw [hfill, set_set] at h
      dsimp only at h
      split at h
      · cases h
      · rename_i hrename
        cases h
        exact rename_set_eq_ok hparent hnone hrename
    · rw [hfill] at h
      cases h

-- One that fails leaves the files as they were, whatever has been written of it by then.
theorem replace_eq_error {failed : String}
    (h : tree.replace device path bytes = (next, .error failed)) : next = tree := by
  unfold replace at h
  dsimp only at h
  split at h
  · cases h
    rfl
  · rename_i location hvacant
    obtain ⟨-, hnone⟩ := vacant_eq_ok hvacant
    rcases fill_cases (tree.set location (.file .empty)) device location bytes with
      hfill | ⟨count, hfill⟩
    · rw [hfill, set_set] at h
      dsimp only at h
      split at h
      · cases h
        exact remove_set hnone _
      · cases h
    · rw [hfill, set_set] at h
      cases h
      exact remove_set hnone _

end LiveDoc.FileTree
