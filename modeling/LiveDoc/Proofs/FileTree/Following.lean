import LiveDoc.Proofs.FileTree.Replacing
import Mathlib

namespace LiveDoc

namespace FileTree

-- A tree without symbolic links.
def LinkFree (tree : FileTree) : Prop :=
  ∀ location target, tree.entry? location ≠ some (.link target)

section Walk

variable {tree : FileTree} {create : Bool} {links : Nat} {place location : Location}
  {todo front back : List Step}

-- Without links a walk goes from name to name.
theorem walk_cons (hfree : tree.LinkFree) (step : Step) :
    tree.walk create links place (step :: todo) =
      if tree.isDirectoryAt place = false then .error .notDirectory
      else match step with
        | .stay => tree.walk create links place todo
        | .up => tree.walk create links place.tail todo
        | .name name =>
            if maxName < name.utf8ByteSize then .error .nameTooLong
            else if tree.entry? (name :: place) = none then
              if create ∧ todo = [] then .ok (name :: place) else .error .notFound
            else tree.walk create links (name :: place) todo := by
  rw [walk.eq_def]
  cases hplace : tree.isDirectoryAt place with
  | false => simp
  | true =>
      cases step with
      | stay => rfl
      | up => rfl
      | name name =>
          cases hentry : tree.entry? (name :: place) with
          | none => simp [hentry]
          | some entry =>
              cases entry with
              | file bytes => simp [hentry]
              | directory => simp [hentry]
              | link target => exact (hfree _ _ hentry).elim

theorem walk_append (hfree : tree.LinkFree) (hback : back ≠ []) :
    tree.walk create links place (front ++ back) =
      (tree.walk false links place front).bind fun middle =>
        tree.walk create links middle back := by
  induction front generalizing place with
  | nil =>
      rw [List.nil_append, walk]
      rfl
  | cons step rest ih =>
      rw [List.cons_append, walk_cons hfree, walk_cons hfree]
      split
      · rfl
      · cases step with
        | stay => exact ih
        | up => exact ih
        | name name =>
            dsimp only
            split
            · rfl
            · split
              · simp [hback, Except.bind]
              · exact ih

theorem walk_eq_follow (hfree : tree.LinkFree)
    (h : tree.walk create links place todo = .ok location) : location = follow place todo := by
  induction todo generalizing place with
  | nil =>
      rw [walk] at h
      cases h
      rfl
  | cons step rest ih =>
      rw [walk_cons hfree] at h
      split at h
      · cases h
      · cases step with
        | stay => exact ih h
        | up => exact ih h
        | name name =>
            dsimp only at h
            split at h
            · cases h
            · split at h
              · split at h
                · rename_i hlast
                  cases h
                  rw [hlast.2]
                  rfl
                · cases h
              · exact ih h

theorem walk_split (hfree : tree.LinkFree)
    (h : tree.walk false links place (front ++ back) = .ok location) :
    tree.walk false links (follow place front) back = .ok location := by
  by_cases hback : back = []
  · subst hback
    rw [List.append_nil] at h
    rw [walk, walk_eq_follow hfree h]
  · rw [walk_append hfree hback] at h
    cases hfront : tree.walk false links place front with
    | error cause =>
        rw [hfront] at h
        cases h
    | ok middle =>
        rw [hfront] at h
        rwa [← walk_eq_follow hfree hfront]

theorem walk_of_idle {idle : List Step} (hfree : tree.LinkFree) (hidle : Idle idle)
    (hback : back ≠ [])
    (h : tree.walk create links place (front ++ (idle ++ back)) = .ok location) :
    tree.walk create links place (front ++ back) = .ok location := by
  induction idle with
  | nil => exact h
  | cons step rest ih =>
      obtain ⟨rfl, hrest⟩ := List.forall_mem_cons.mp hidle
      have hmore : rest ++ back ≠ [] := List.append_ne_nil_of_right_ne_nil rest hback
      refine ih hrest ?_
      rw [walk_append hfree (List.append_ne_nil_of_right_ne_nil _ hback)] at h
      rw [walk_append hfree hmore]
      cases hfront : tree.walk false links place front with
      | error cause =>
          rw [hfront] at h
          cases h
      | ok middle =>
          rw [hfront] at h
          simp only [Except.bind, List.cons_append, walk_cons hfree] at h ⊢
          split at h
          · cases h
          · exact h

-- A name in the working directory.
theorem seek_component (hfree : tree.LinkFree) {name : String}
    (h : checked name = .ok [.name name]) (hrelative : Path.isAbsolute name = false)
    (hplace : tree.isDirectoryAt tree.here = true) (hshort : name.utf8ByteSize ≤ maxName) :
    tree.seek name = if tree.entry? (name :: tree.here) = none then .error .notFound
      else .ok (name :: tree.here) := by
  have horigin : tree.origin name = tree.here := by
    rw [origin, hrelative]
    rfl
  have haccepted := accepted_of_checked h (hshort.trans (by decide))
  rw [seek, haccepted]
  simp only [bind, Except.bind]
  rw [horigin, walk_cons hfree, hplace, if_neg (by decide)]
  dsimp only
  rw [if_neg (Nat.not_lt.mpr hshort), walk]
  simp

theorem walk_idle {idle : List Step} (hidle : Idle idle)
    (hplace : tree.isDirectoryAt place = true) :
    tree.walk create links place idle = .ok place := by
  induction idle with
  | nil => rw [walk]
  | cons step rest ih =>
      obtain ⟨rfl, hrest⟩ := List.forall_mem_cons.mp hidle
      rw [walk, hplace]
      exact ih hrest

theorem slot_of_idle {path name : String} {idle : List Step}
    (haccepted : accepted path = .ok (idle ++ [.name name])) (hidle : Idle idle)
    (hplace : tree.isDirectoryAt (tree.origin path) = true) (hshort : name.utf8ByteSize ≤ maxName) :
    tree.slot path = .ok (name :: tree.origin path) :=
  slot_of_walk haccepted (walk_idle hidle hplace) hplace hshort

end Walk

-- One tree is left of another where nothing has been taken away.
structure Extends (tree next : FileTree) : Prop where
  here : next.here = tree.here
  directories : ∀ place, tree.isDirectoryAt place = true → next.isDirectoryAt place = true
  entries : ∀ location, tree.entry? location ≠ none → next.entry? location ≠ none
  linkFree : next.LinkFree

section Extends

variable {tree middle next : FileTree} {location : Location}

theorem Extends.refl (h : tree.LinkFree) : tree.Extends tree :=
  ⟨rfl, fun _ h => h, fun _ h => h, h⟩

theorem Extends.trans (h : tree.Extends middle) (hnext : middle.Extends next) :
    tree.Extends next where
  here := hnext.here.trans h.here
  directories place hplace := hnext.directories place (h.directories place hplace)
  entries location hentry := hnext.entries location (h.entries location hentry)
  linkFree := hnext.linkFree

theorem GainsDirectories.extends (h : tree.GainsDirectories next) (hfree : tree.LinkFree) :
    tree.Extends next where
  here := h.1
  directories place hplace := by
    have hold := beq_iff_eq.mp hplace
    rcases h.2 place with hsame | ⟨hnone, -⟩
    · exact beq_iff_eq.mpr (hsame.trans hold)
    · cases hnone.symm.trans hold
  entries location hentry := by
    rcases h.2 location with hsame | ⟨hnone, -⟩
    · rwa [hsame]
    · exact (hentry hnone).elim
  linkFree location target hlink := by
    rcases h.2 location with hsame | ⟨-, hnew⟩
    · exact hfree location target (hsame.symm.trans hlink)
    · cases hnew.symm.trans hlink

theorem extends_set {bytes : ByteArray} (hfree : tree.LinkFree)
    (hparent : tree.Present location.tail) (hfile : tree.entry? location ≠ some .directory) :
    tree.Extends (tree.set location (.file bytes)) := by
  have hself := entry?_set_self tree location (.file bytes)
  have hothers : ∀ other, other ≠ location →
      entry? (tree.set location (.file bytes)) other = tree.entry? other :=
    fun other hne => entry?_set_of_ne hparent hne
  refine ⟨rfl, fun place hplace => ?_, fun other hother => ?_, fun other target hlink => ?_⟩
  · have hold := beq_iff_eq.mp hplace
    have hne : place ≠ location := fun hsame => hfile (hsame ▸ hold)
    exact beq_iff_eq.mpr ((hothers place hne).trans hold)
  · by_cases hsame : other = location
    · rw [hsame, hself]
      exact Option.some_ne_none _
    · rwa [hothers other hsame]
  · by_cases hsame : other = location
    · rw [hsame, hself] at hlink
      cases hlink
    · exact hfree other target ((hothers other hsame).symm.trans hlink)

-- A walk can be repeated where there is more.
theorem Extends.walk {create : Bool} {links : Nat} {place : Location} {todo : List Step}
    (h : tree.Extends next) (hfree : tree.LinkFree) (hthere : next.entry? location ≠ none)
    (hwalk : tree.walk create links place todo = .ok location) :
    next.walk false links place todo = .ok location := by
  induction todo generalizing place with
  | nil =>
      rw [FileTree.walk] at hwalk ⊢
      exact hwalk
  | cons step rest ih =>
      rw [walk_cons hfree] at hwalk
      rw [walk_cons h.linkFree]
      split at hwalk
      · cases hwalk
      · rename_i hplace
        rw [if_neg (by simpa using h.directories place (by simpa using hplace))]
        cases step with
        | stay => exact ih hwalk
        | up => exact ih hwalk
        | name name =>
            dsimp only at hwalk ⊢
            split at hwalk
            · cases hwalk
            · rename_i hshort
              rw [if_neg hshort]
              split at hwalk
              · split at hwalk
                · rename_i hlast
                  cases hwalk
                  rw [if_neg hthere, hlast.2, FileTree.walk]
                · cases hwalk
              · rename_i hentry
                rw [if_neg (h.entries _ hentry)]
                exact ih hwalk

end Extends

-- The location that a path names where there are no links.
def placeOf (tree : FileTree) (path : String) : Location := follow (tree.origin path) (steps path)

theorem Extends.placeOf {tree next : FileTree} (h : tree.Extends next) (path : String) :
    next.placeOf path = tree.placeOf path := by
  rw [FileTree.placeOf, FileTree.placeOf, origin, origin, h.here]

-- A path names a file without links on the way.
def Holds (tree : FileTree) (path : String) (bytes : ByteArray) : Prop :=
  tree.walk false maxLinks (tree.origin path) (steps path) = .ok (tree.placeOf path) ∧
    tree.entry? (tree.placeOf path) = some (.file bytes)

section Holds

variable {tree next : FileTree} {path : String} {bytes : ByteArray}

theorem Holds.later (h : tree.Holds path bytes) (hfree : tree.LinkFree) (hnext : tree.Extends next)
    (hsame : next.entry? (tree.placeOf path) = tree.entry? (tree.placeOf path)) :
    next.Holds path bytes := by
  have hentry := hsame.trans h.2
  refine ⟨?_, by rw [hnext.placeOf]; exact hentry⟩
  rw [origin, hnext.here, hnext.placeOf]
  exact hnext.walk hfree (by rw [hentry]; exact Option.some_ne_none _) h.1

-- A write gives a path its file and leaves everything else.
theorem holds_overwrite (hfree : tree.LinkFree) {device : Device}
    (h : tree.overwrite device path bytes = (next, .ok ())) :
    tree.Extends next ∧ next.Holds path bytes ∧
      ∀ location, location ≠ tree.placeOf path → next.entry? location = tree.entry? location := by
  obtain ⟨place, htarget, rfl⟩ := overwrite_eq_ok h
  obtain ⟨hwalk, hfile, hparent⟩ := target_eq_ok htarget
  obtain rfl := walk_eq_follow hfree hwalk
  have hnext := @extends_set tree _ bytes hfree hparent hfile
  have hself := entry?_set_self tree (tree.placeOf path) (.file bytes)
  refine ⟨hnext, ⟨?_, ?_⟩, fun location hne => entry?_set_of_ne hparent hne⟩
  · rw [hnext.placeOf]
    exact hnext.walk hfree (by rw [← placeOf, hself]; exact Option.some_ne_none _) hwalk
  · rw [hnext.placeOf]
    exact hself

-- A replacement does too, and its path ends in the name of the file.
theorem holds_replace (hfree : tree.LinkFree) {device : Device}
    (h : tree.replace device path bytes = (next, .ok ())) :
    (∃ front name, steps path = front ++ [.name name]) ∧ tree.Extends next ∧
      next.entry? (tree.placeOf path) = some (.file bytes) ∧
      ∀ location, location ≠ tree.placeOf path → next.entry? location = tree.entry? location := by
  obtain ⟨name, front, place, hsteps, hwalk, hplace, hfile, rfl⟩ := replace_eq_ok h
  have hlocation : tree.placeOf path = name :: place := by
    rw [placeOf, hsteps, follow_append, ← walk_eq_follow hfree hwalk]
    rfl
  have hparent : tree.Present (name :: place).tail := present_of_isDirectoryAt hplace
  rw [hlocation]
  exact ⟨⟨front, name, hsteps⟩, extends_set hfree hparent hfile, entry?_set_self ..,
    fun location hne => entry?_set_of_ne hparent hne⟩

end Holds

end FileTree

end LiveDoc
