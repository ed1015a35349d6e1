import LiveDoc.Proofs.FileTree.Paths
import Mathlib

namespace LiveDoc

namespace FileTree

-- There is something at a location: the root, an entry, or what lies above one.
def Present (tree : FileTree) (location : Location) : Prop :=
  location = [] ∨ ∃ e ∈ tree.entries, location <:+ e.1

theorem present_of_suffix {tree : FileTree} {location other : Location}
    (h : tree.Present location) (hsuffix : other <:+ location) : tree.Present other := by
  rcases h with rfl | ⟨e, he, hbelow⟩
  · exact .inl (List.suffix_nil.mp hsuffix)
  · exact .inr ⟨e, he, hsuffix.trans hbelow⟩

theorem entry?_eq_none_iff {tree : FileTree} {location : Location} :
    tree.entry? location = none ↔ ¬ tree.Present location := by
  unfold entry? Present
  cases hfind : tree.entries.find? fun e => e.1 == location with
  | some e =>
      have hmem := List.mem_of_find?_eq_some hfind
      have hsame : e.1 = location := by simpa using List.find?_some hfind
      simp only [reduceCtorEq, false_iff, not_not]
      exact .inr ⟨e, hmem, hsame ▸ List.suffix_rfl⟩
  | none => simp

theorem present_of_entry? {tree : FileTree} {location : Location} {entry : Entry}
    (h : tree.entry? location = some entry) : tree.Present location := by
  by_contra habsent
  rw [entry?_eq_none_iff.mpr habsent] at h
  cases h

-- A location without an entry of its own is a directory, if there is something at it.
theorem entry?_of_present {tree : FileTree} {location : Location} (h : tree.Present location)
    (hown : tree.entries.find? (fun e => e.1 == location) = none) :
    tree.entry? location = some .directory := by
  unfold entry?
  rw [hown]
  rcases h with rfl | ⟨e, he, hbelow⟩
  · rfl
  · have habove : tree.entries.any (fun e => location.isSuffixOf e.1) = true :=
      List.any_eq_true.mpr ⟨e, he, by simpa using hbelow⟩
    simp only [habove, or_true, if_true]

section Set

variable {tree : FileTree} {location other : Location} {entry : Entry}

theorem entry?_set_self (tree : FileTree) (location : Location) (entry : Entry) :
    entry? (tree.set location entry) location = some entry := by
  have hold : (tree.entries.filter fun e => e.1 != location).find? (fun e => e.1 == location) =
      none := by
    refine List.find?_eq_none.mpr fun e he => ?_
    simpa using (List.mem_filter.mp he).2
  simp only [ entry?, set, List.find?_append, hold, List.find?_cons_of_pos, beq_self_eq_true,
    Option.none_or]

theorem present_set_iff (hparent : tree.Present location.tail) :
    (tree.set location entry).Present other ↔ tree.Present other ∨ other = location := by
  have hentries : (tree.set location entry).entries =
      tree.entries.filter (fun e => e.1 != location) ++ [(location, entry)] := rfl
  simp only [Present, hentries, List.mem_append, List.mem_filter, List.mem_singleton, bne_iff_ne]
  constructor
  · rintro (rfl | ⟨e, ⟨he, -⟩ | rfl, hbelow⟩)
    · exact .inl (.inl rfl)
    · exact .inl (.inr ⟨e, he, hbelow⟩)
    · -- What lies above the new entry lies above or is its directory.
      cases location with
      | nil => exact .inr (List.suffix_nil.mp hbelow)
      | cons name place =>
          rcases List.suffix_cons_iff.mp hbelow with hsame | hbelow
          · exact .inr hsame
          · exact .inl (present_of_suffix hparent hbelow)
  · rintro ((rfl | ⟨e, he, hbelow⟩) | rfl)
    · exact .inl rfl
    · by_cases hsame : e.1 = location
      · exact .inr ⟨_, .inr rfl, hsame ▸ hbelow⟩
      · exact .inr ⟨e, .inl ⟨he, hsame⟩, hbelow⟩
    · exact .inr ⟨_, .inr rfl, List.suffix_rfl⟩

-- A new entry in a directory changes nothing elsewhere.
theorem entry?_set_of_ne (hparent : tree.Present location.tail) (hne : other ≠ location) :
    entry? (tree.set location entry) other = tree.entry? other := by
  have hfind : (tree.set location entry).entries.find? (fun e => e.1 == other) =
      tree.entries.find? fun e => e.1 == other := by
    have hnew : [(location, entry)].find? (fun e => e.1 == other) = none := by
      simpa using hne.symm
    rw [set, List.find?_append, List.find?_filter, hnew, Option.or_none]
    congr
    funext e
    by_cases hsame : e.1 = other
    · simp [hsame, hne]
    · simp [hsame]
  have hpresent : (tree.set location entry).Present other ↔ tree.Present other := by
    rw [present_set_iff hparent, or_iff_left hne]
  cases hold : tree.entries.find? fun e => e.1 == other with
  | some e => simp only [ entry?, hfind, hold]
  | none =>
      by_cases habove : tree.Present other
      · rw [entry?_of_present habove hold,
          entry?_of_present (hpresent.mpr habove) (hfind.trans hold)]
      · rw [entry?_eq_none_iff.mpr habove, entry?_eq_none_iff.mpr (mt hpresent.mp habove)]

end Set

section Walk

variable {tree : FileTree} {create : Bool} {links : Nat} {place location : Location}
  {todo : List Step}

theorem present_of_isDirectoryAt (h : tree.isDirectoryAt place = true) : tree.Present place :=
  present_of_entry? (beq_iff_eq.mp h)

-- What a walk comes to stands in something that is there.
theorem present_of_walk (h : tree.walk create links place todo = .ok location)
    (hstart : todo ≠ [] ∨ tree.Present place.tail) : tree.Present location.tail := by
  have hinside : ∀ {place : Location}, ¬ (!tree.isDirectoryAt place) = true → tree.Present place :=
    fun hplace => present_of_isDirectoryAt (by simpa using hplace)
  fun_induction walk tree create links place todo with
  | case1 links place =>
      cases h
      exact hstart.resolve_left fun hne => hne rfl
  | case2 links place step rest hplace => cases h
  | case3 links place rest hplace ih =>
      exact ih h (.inr (present_of_suffix (hinside hplace) (List.tail_suffix _)))
  | case4 links place rest hplace ih =>
      exact ih h (.inr (present_of_suffix (hinside hplace)
        ((List.tail_suffix _).trans (List.tail_suffix _))))
  | case5 links place rest hplace name hlong => cases h
  | case6 links place rest hplace name hshort hnone hlast =>
      cases h
      exact hinside hplace
  | case7 links place rest hplace name hshort hnone hlast => cases h
  | case8 place rest hplace name hshort target hlink => cases h
  | case9 place rest hplace name hshort target hlink links start ih =>
      exact ih h (.inl fun hnil => steps_ne_nil target (List.append_eq_nil_iff.mp hnil).1)
  | case10 links place rest hplace name hshort entry hnolink hentry ih =>
      exact ih h (.inr (hinside hplace))

end Walk

section Writes

variable {tree next : FileTree} {path : String} {bytes : ByteArray}

theorem steps_of_checked {todo : List Step} (h : checked path = .ok todo) : todo = steps path := by
  unfold checked at h
  split at h
  · cases h
  · split at h
    · cases h
    · cases h
      rfl

theorem checked_eq_ok (hne : path ≠ "") (hzero : Char.ofNat 0 ∉ path.toList) :
    checked path = .ok (steps path) := by
  have hnonempty : path.isEmpty = false := by simpa using hne
  rw [checked, hnonempty, String.contains_char_eq, decide_eq_false hzero]
  rfl

theorem checked_of_component {name : String} (h : '/' ∉ name.toList) (hempty : name ≠ "")
    (hdot : name ≠ ".") (hdots : name ≠ "..") (hzero : Char.ofNat 0 ∉ name.toList) :
    checked name = .ok [.name name] := by
  rw [checked_eq_ok hempty hzero, steps_of_component h hempty hdot hdots]

theorem accepted_eq_ok {todo : List Step} (h : accepted path = .ok todo) :
    todo = steps path ∧ path.utf8ByteSize ≤ maxPath := by
  unfold accepted at h
  cases hchecked : checked path with
  | error cause =>
      rw [hchecked] at h
      cases h
  | ok todo =>
      rw [hchecked] at h
      simp only [bind, Except.bind] at h
      split at h
      · cases h
      · rename_i hshort
        cases h
        exact ⟨steps_of_checked hchecked, Nat.le_of_not_lt hshort⟩

theorem accepted_of_checked {todo : List Step} (h : checked path = .ok todo)
    (hshort : path.utf8ByteSize ≤ maxPath) : accepted path = .ok todo := by
  rw [accepted, h]
  exact if_neg (Nat.not_lt.mpr hshort)

theorem accepted_of_short (hne : path ≠ "") (hzero : Char.ofNat 0 ∉ path.toList)
    (hshort : path.utf8ByteSize ≤ maxPath) : accepted path = .ok (steps path) :=
  accepted_of_checked (checked_eq_ok hne hzero) hshort

theorem checked_of_accepted {todo : List Step} (h : accepted path = .ok todo) :
    path ≠ "" ∧ Char.ofNat 0 ∉ path.toList := by
  unfold accepted checked at h
  split at h
  · cases h
  · split at h
    · cases h
    · rename_i hempty hzero
      exact ⟨by simpa using hempty, by simpa using hzero⟩

-- What is written to is a file, or a name that is free in its directory.
theorem target_eq_ok {location : Location} (h : tree.target path = .ok location) :
    tree.walk true maxLinks (tree.origin path) (steps path) = .ok location ∧
      tree.entry? location ≠ some .directory ∧ tree.Present location.tail := by
  unfold target at h
  cases haccepted : accepted path with
  | error cause =>
      rw [haccepted] at h
      cases h
  | ok todo =>
      obtain ⟨rfl, -⟩ := accepted_eq_ok haccepted
      cases hwalk : tree.walk true maxLinks (tree.origin path) (steps path) with
      | error cause =>
          rw [haccepted] at h
          simp only [bind, Except.bind, hwalk, reduceCtorEq] at h
      | ok place =>
          rw [haccepted] at h
          simp only [bind, Except.bind, hwalk] at h
          split at h
          · cases h
          · rename_i hfile
            cases h
            exact ⟨rfl, fun hdirectory => hfile (beq_iff_eq.mpr hdirectory),
              present_of_walk hwalk (.inl (steps_ne_nil path))⟩

-- A slot is a name in the directory that the path names before it.
theorem slot_eq_ok {location : Location} (h : tree.slot path = .ok location) :
    ∃ name front place, location = name :: place ∧ steps path = front ++ [.name name] ∧
      tree.walk false maxLinks (tree.origin path) front = .ok place ∧
      tree.isDirectoryAt place = true ∧ name.utf8ByteSize ≤ maxName := by
  unfold slot at h
  cases haccepted : accepted path with
  | error cause =>
      rw [haccepted] at h
      cases h
  | ok todo =>
      obtain ⟨rfl, -⟩ := accepted_eq_ok haccepted
      rw [haccepted] at h
      simp only [bind, Except.bind] at h
      split at h
      · cases h
      · rename_i last front hsteps
        cases hwalk : tree.walk false maxLinks (tree.origin path) front.reverse with
        | error cause =>
            simp only [hwalk, reduceCtorEq] at h
        | ok place =>
            simp only [hwalk] at h
            split at h
            · cases h
            · rename_i hplace
              split at h
              · rename_i name
                split at h
                · cases h
                · rename_i hshort
                  cases h
                  refine ⟨name, front.reverse, place, rfl, ?_, hwalk, by simpa using hplace,
                    Nat.le_of_not_lt hshort⟩
                  rw [← List.reverse_reverse (steps path), hsteps, List.reverse_cons]
              · cases h

theorem slot_of_walk {name : String} {front : List Step} {place : Location}
    (haccepted : accepted path = .ok (front ++ [.name name]))
    (hwalk : tree.walk false maxLinks (tree.origin path) front = .ok place)
    (hplace : tree.isDirectoryAt place = true) (hshort : name.utf8ByteSize ≤ maxName) :
    tree.slot path = .ok (name :: place) := by
  rw [slot, haccepted]
  simp only [bind, Except.bind, List.reverse_append, List.reverse_singleton, List.singleton_append,
    List.reverse_reverse, hwalk, hplace, Bool.not_true, Bool.false_eq_true, if_false,
    Nat.not_lt.mpr hshort]

theorem present_of_slot {location : Location} (h : tree.slot path = .ok location) :
    tree.Present location.tail := by
  obtain ⟨name, front, place, rfl, -, -, hplace, -⟩ := slot_eq_ok h
  exact present_of_isDirectoryAt hplace

theorem free_eq_ok {location : Location} (h : tree.free path = .ok location) :
    tree.Present location.tail ∧ tree.entry? location = none := by
  unfold free at h
  cases hslot : tree.slot path with
  | error cause =>
      rw [hslot] at h
      cases h
  | ok own =>
      rw [hslot] at h
      simp only [bind, Except.bind] at h
      split at h
      · cases h
      · rename_i hnone
        cases h
        exact ⟨present_of_slot hslot, by simpa using hnone⟩

theorem free_of_slot {location : Location} (h : tree.slot path = .ok location)
    (hnone : tree.entry? location = none) : tree.free path = .ok location := by
  rw [free, h]
  simp only [bind, Except.bind, hnone, Option.isSome_none, Bool.false_eq_true, if_false]

-- Nothing is lost or changed, and what is new is a directory.
def GainsDirectories (tree next : FileTree) : Prop :=
  next.here = tree.here ∧ ∀ location, next.entry? location = tree.entry? location ∨
    tree.entry? location = none ∧ next.entry? location = some .directory

theorem GainsDirectories.refl (tree : FileTree) : tree.GainsDirectories tree :=
  ⟨rfl, fun _ => .inl rfl⟩

theorem GainsDirectories.trans {middle : FileTree} (h : tree.GainsDirectories middle)
    (hnext : middle.GainsDirectories next) : tree.GainsDirectories next := by
  refine ⟨hnext.1.trans h.1, fun location => ?_⟩
  rcases hnext.2 location with hlater | ⟨hnone, hlater⟩
  · rw [hlater]
    exact h.2 location
  · rcases h.2 location with hfirst | ⟨-, hfirst⟩
    · exact .inr ⟨hfirst.symm.trans hnone, hlater⟩
    · cases hfirst.symm.trans hnone

theorem gains_set {location : Location} (hparent : tree.Present location.tail)
    (hnone : tree.entry? location = none) : tree.GainsDirectories (tree.set location .directory) := by
  refine ⟨rfl, fun other => ?_⟩
  by_cases hsame : other = location
  · rw [hsame]
    exact .inr ⟨hnone, entry?_set_self tree location .directory⟩
  · exact .inl (entry?_set_of_ne hparent hsame)

theorem gains_makeDirectory (h : tree.makeDirectory path = .ok next) : tree.GainsDirectories next := by
  unfold makeDirectory at h
  cases hfree : tree.free (Path.withoutEnd path) with
  | error cause =>
      rw [hfree] at h
      cases h
  | ok location =>
      rw [hfree] at h
      cases h
      obtain ⟨hparent, hnone⟩ := free_eq_ok hfree
      exact gains_set hparent hnone

theorem gains_ensureDirectory (tree : FileTree) (path : String) :
    tree.GainsDirectories (tree.ensureDirectory path).1 := by
  unfold ensureDirectory
  split
  · exact .refl tree
  · split
    · rename_i hmade
      exact gains_makeDirectory hmade
    · exact .refl tree

theorem gains_makeBelow (above : List String) (tree : FileTree) (path : String) :
    tree.GainsDirectories (tree.makeBelow path above).1 := by
  induction above generalizing tree path with
  | nil => exact gains_ensureDirectory tree path
  | cons parent rest ih =>
      have hparent := ih tree parent
      unfold makeBelow
      split
      · split
        · rename_i hleft
          rwa [hleft] at hparent
        · rename_i hleft
          rw [hleft] at hparent
          exact hparent.trans (gains_ensureDirectory _ path)
      · exact gains_ensureDirectory tree path

theorem makeDirectories_of_ok (hne : path ≠ "") (h : tree.makeDirectory path = .ok next) :
    tree.makeDirectories path = (next, .ok ()) := by
  have hensure : tree.ensureDirectory path = (next, .ok ()) := by
    rw [ensureDirectory, h]
    exact if_neg (by simpa using hne)
  rw [makeDirectories, makeBelow.eq_def]
  split
  · exact hensure
  · rw [h]
    exact hensure

-- Also where it fails, making directories does nothing else.
theorem gains_makeDirectories (tree : FileTree) (path : String) :
    tree.GainsDirectories (tree.makeDirectories path).1 :=
  gains_makeBelow (Path.above path) tree path

end Writes

end FileTree

end LiveDoc
