import LiveDoc.Proofs.FileTree.Writes
import Mathlib

namespace LiveDoc

namespace FileTree

-- Where steps lead from a place. The numbers are the links that may be followed, before and after.
inductive Leads (tree : FileTree) : Nat → Location → List Step → Nat → Location → Prop
  | done {links : Nat} {place : Location} : Leads tree links place [] links place
  | stay {links left : Nat} {place last : Location} {rest : List Step} :
      tree.isDirectoryAt place = true → Leads tree links place rest left last →
      Leads tree links place (.stay :: rest) left last
  | up {links left : Nat} {place last : Location} {rest : List Step} :
      tree.isDirectoryAt place = true → Leads tree links place.tail rest left last →
      Leads tree links place (.up :: rest) left last
  | enter {links left : Nat} {place last : Location} {rest : List Step} {name : String}
      {entry : Entry} : tree.isDirectoryAt place = true → ¬maxName < name.utf8ByteSize →
      tree.entry? (name :: place) = some entry → (∀ target, entry ≠ .link target) →
      Leads tree links (name :: place) rest left last →
      Leads tree links place (.name name :: rest) left last
  | follow {links left : Nat} {place last : Location} {rest : List Step} {name target : String} :
      tree.isDirectoryAt place = true → ¬maxName < name.utf8ByteSize →
      tree.entry? (name :: place) = some (.link target) →
      Leads tree links (if Path.isAbsolute target then [] else place) (steps target ++ rest) left
        last →
      Leads tree (links + 1) place (.name name :: rest) left last

section Leads

variable {tree : FileTree} {links left : Nat} {place middle last : Location}
  {front back todo : List Step}

theorem walk_eq_ok_iff :
    tree.walk false links place todo = .ok last ↔ ∃ left, tree.Leads links place todo left last := by
  constructor
  · intro h
    have hinside : ∀ {place : Location}, ¬(!tree.isDirectoryAt place) = true →
        tree.isDirectoryAt place = true := fun hplace => by simpa using hplace
    generalize hcreate : false = create at h
    fun_induction walk tree create links place todo with
    | case1 links place =>
        cases h
        exact ⟨links, .done⟩
    | case2 links place step rest hplace => cases h
    | case3 links place rest hplace ih =>
        obtain ⟨left, hrest⟩ := ih h
        exact ⟨left, .stay (hinside hplace) hrest⟩
    | case4 links place rest hplace ih =>
        obtain ⟨left, hrest⟩ := ih h
        exact ⟨left, .up (hinside hplace) hrest⟩
    | case5 links place rest hplace name hlong => cases h
    | case6 links place rest hplace name hshort hnone hlast =>
        rw [← hcreate] at hlast
        exact absurd hlast.1 Bool.false_ne_true
    | case7 links place rest hplace name hshort hnone hlast => cases h
    | case8 place rest hplace name hshort target hlink => cases h
    | case9 place rest hplace name hshort target hlink links start ih =>
        obtain ⟨left, hrest⟩ := ih h
        exact ⟨left, .follow (hinside hplace) hshort hlink hrest⟩
    | case10 links place rest hplace name hshort entry hnolink hentry ih =>
        obtain ⟨left, hrest⟩ := ih h
        exact ⟨left, .enter (hinside hplace) hshort hentry hnolink hrest⟩
  · rintro ⟨left, h⟩
    induction h with
    | done => rw [walk]
    | stay hplace _ ih => rw [walk.eq_def]; simpa [hplace] using ih
    | up hplace _ ih => rw [walk.eq_def]; simpa [hplace] using ih
    | @enter links left place last rest name entry hplace hshort hentry hnolink _ ih =>
        rw [walk.eq_def]
        cases entry with
        | link target => exact (hnolink target rfl).elim
        | file bytes => simpa [hplace, hshort, hentry] using ih
        | directory => simpa [hplace, hshort, hentry] using ih
    | follow hplace hshort hentry _ ih =>
        rw [walk.eq_def]
        simpa [hplace, hshort, hentry] using ih

theorem Leads.split (h : tree.Leads links place (front ++ back) left last) :
    ∃ links' middle, tree.Leads links place front links' middle ∧
      tree.Leads links' middle back left last := by
  generalize htodo : front ++ back = todo at h
  induction h generalizing front with
  | done =>
      obtain ⟨rfl, rfl⟩ := List.append_eq_nil_iff.mp htodo
      exact ⟨_, _, .done, .done⟩
  | stay hplace hrest ih =>
      cases front with
      | nil =>
          obtain rfl : back = _ := htodo
          exact ⟨_, _, .done, .stay hplace hrest⟩
      | cons step front =>
          obtain ⟨rfl, hfront⟩ := List.cons.inj htodo
          obtain ⟨links', middle, hhead, hback⟩ := ih hfront
          exact ⟨links', middle, .stay hplace hhead, hback⟩
  | up hplace hrest ih =>
      cases front with
      | nil =>
          obtain rfl : back = _ := htodo
          exact ⟨_, _, .done, .up hplace hrest⟩
      | cons step front =>
          obtain ⟨rfl, hfront⟩ := List.cons.inj htodo
          obtain ⟨links', middle, hhead, hback⟩ := ih hfront
          exact ⟨links', middle, .up hplace hhead, hback⟩
  | enter hplace hshort hentry hnolink hrest ih =>
      cases front with
      | nil =>
          obtain rfl : back = _ := htodo
          exact ⟨_, _, .done, .enter hplace hshort hentry hnolink hrest⟩
      | cons step front =>
          obtain ⟨rfl, hfront⟩ := List.cons.inj htodo
          obtain ⟨links', middle, hhead, hback⟩ := ih hfront
          exact ⟨links', middle, .enter hplace hshort hentry hnolink hhead, hback⟩
  | @follow links left place last rest name target hplace hshort hentry hrest ih =>
      cases front with
      | nil =>
          obtain rfl : back = _ := htodo
          exact ⟨_, _, .done, .follow hplace hshort hentry hrest⟩
      | cons step front =>
          obtain ⟨rfl, hfront⟩ := List.cons.inj htodo
          subst hfront
          obtain ⟨links', middle, hhead, hback⟩ := ih (List.append_assoc ..)
          exact ⟨links', middle, .follow hplace hshort hentry hhead, hback⟩

theorem Leads.le (h : tree.Leads links place todo left last) : left ≤ links := by
  induction h with
  | done => exact Nat.le_refl _
  | stay _ _ ih => exact ih
  | up _ _ ih => exact ih
  | enter _ _ _ _ _ ih => exact ih
  | follow _ _ _ _ ih => exact Nat.le_succ_of_le ih

theorem Leads.append (hfront : tree.Leads links place front left middle) {links' : Nat}
    (hback : tree.Leads left middle back links' last) :
    tree.Leads links place (front ++ back) links' last := by
  induction hfront with
  | done => exact hback
  | stay hplace _ ih => exact .stay hplace (ih hback)
  | up hplace _ ih => exact .up hplace (ih hback)
  | enter hplace hshort hentry hnolink _ ih =>
      exact .enter hplace hshort hentry hnolink (ih hback)
  | follow hplace hshort hentry _ ih =>
      exact .follow hplace hshort hentry (List.append_assoc .. ▸ ih hback)

end Leads

section Height

variable {tree : FileTree} {links left : Nat} {place last : Location} {name : String}

theorem length_le_height (h : tree.Present place) : place.length ≤ tree.height := by
  rcases h with rfl | ⟨e, he, hbelow⟩
  · exact Nat.zero_le _
  · refine hbelow.length_le.trans ?_
    rw [height]
    generalize tree.entries = entries at he
    induction entries with
    | nil => cases he
    | cons first rest ih =>
        rw [List.foldr_cons]
        rcases List.mem_cons.mp he with rfl | hrest
        · exact Nat.le_max_left _ _
        · exact (ih hrest).trans (Nat.le_max_right _ _)

-- How many names can be gone from a directory to one below it, when a link may lead anywhere.
def room (tree : FileTree) (links : Nat) (place : Location) : Nat :=
  links * (tree.height + 1) + (tree.height - place.length)

theorem Leads.inside (h : tree.Leads links place [.name name] left last) :
    tree.isDirectoryAt place = true := by
  cases h with
  | enter hplace => exact hplace
  | follow hplace => exact hplace

theorem Leads.present (h : tree.Leads links place [.name name] left last) :
    tree.Present (name :: place) := by
  cases h with
  | enter hplace hshort hentry hnolink hrest => exact present_of_entry? hentry
  | follow hplace hshort hentry hrest => exact present_of_entry? hentry

theorem Leads.room_lt (h : tree.Leads links place [.name name] left last)
    (hlast : tree.isDirectoryAt last = true) : tree.room left last < tree.room links place := by
  unfold room
  cases h with
  | enter hplace hshort hentry hnolink hrest =>
      cases hrest
      have hle := length_le_height (present_of_isDirectoryAt hlast)
      rw [List.length_cons] at hle ⊢
      omega
  | @follow links left place last rest name target hplace hshort hentry hrest =>
      have hle := Nat.mul_le_mul_right (tree.height + 1) hrest.le
      rw [Nat.succ_mul]
      omega

theorem room_lt_of_links (hlinks : links ≤ maxLinks) (place : Location) :
    tree.room links place < (maxLinks + 1) * (tree.height + 1) := by
  have hle := Nat.mul_le_mul_right (tree.height + 1) hlinks
  rw [room, Nat.succ_mul]
  omega

end Height

section Children

variable {tree : FileTree} {place : Location} {name : String}

-- What the names of a directory are before they are sorted.
theorem mem_foldl_insert (own found : List String) (name : String) :
    name ∈ own.foldl (fun names name => if names.contains name then names else name :: names) found ↔
      name ∈ found ∨ name ∈ own := by
  induction own generalizing found with
  | nil => simp
  | cons first rest ih =>
      rw [List.foldl_cons, ih]
      by_cases hfirst : first ∈ found
      · rw [if_pos (by simpa using hfirst)]
        constructor
        · rintro (h | h)
          · exact .inl h
          · exact .inr (List.mem_cons_of_mem _ h)
        · rintro (h | h)
          · exact .inl h
          · rcases List.mem_cons.mp h with rfl | h
            · exact .inl hfirst
            · exact .inr h
      · rw [if_neg (by simpa using hfirst), List.mem_cons, List.mem_cons, or_comm (b := name ∈ found),
          or_assoc]

theorem nodup_foldl_insert (own : List String) {found : List String} (h : found.Nodup) :
    (own.foldl (fun names name => if names.contains name then names else name :: names)
      found).Nodup := by
  induction own generalizing found with
  | nil => exact h
  | cons first rest ih =>
      rw [List.foldl_cons]
      by_cases hfirst : first ∈ found
      · rw [if_pos (by simpa using hfirst)]
        exact ih h
      · rw [if_neg (by simpa using hfirst)]
        exact ih (List.nodup_cons.mpr ⟨hfirst, h⟩)

theorem mem_children : name ∈ tree.children place ↔ tree.Present (name :: place) := by
  have hbelow : ∀ location : Location,
      (if place.isSuffixOf location then
        (location.take (location.length - place.length)).getLast? else none) = some name ↔
      name :: place <:+ location := by
    intro location
    by_cases hsuffix : place <:+ location
    · obtain ⟨front, rfl⟩ := hsuffix
      rw [if_pos (by simp), List.length_append, Nat.add_sub_cancel, List.take_left,
        List.getLast?_eq_some_iff]
      constructor
      · rintro ⟨init, rfl⟩
        exact ⟨init, by simp⟩
      · rintro ⟨init, hinit⟩
        exact ⟨init, List.append_cancel_right (by simpa using hinit.symm)⟩
    · rw [if_neg (by simpa using hsuffix)]
      simp only [reduceCtorEq, false_iff]
      exact fun h => hsuffix ((List.suffix_cons name place).trans h)
  rw [children, List.mem_mergeSort, mem_foldl_insert, Present]
  simp only [List.not_mem_nil, false_or, List.mem_filterMap, hbelow, reduceCtorEq]

theorem children_ascending (tree : FileTree) (place : Location) :
    (tree.children place).Pairwise (· < ·) := by
  have hsorted : ∀ own : List String, (own.mergeSort fun a b => decide (a ≤ b)).Pairwise
      fun a b => decide (a ≤ b) = true := fun own => List.pairwise_mergeSort
    (fun a b c hab hbc => decide_eq_true ((of_decide_eq_true hab).trans (of_decide_eq_true hbc)))
    (fun a b => by simpa using le_total a b) own
  rw [children]
  refine ((hsorted _).and ((List.mergeSort_perm _ _).nodup_iff.mpr
    (nodup_foldl_insert _ List.nodup_nil))).imp ?_
  rintro a b ⟨hle, hne⟩
  exact lt_of_le_of_ne (of_decide_eq_true hle) hne

end Children

-- The system takes a path and comes to a place, with so many links that could have been followed
-- further.
structure Reaches (tree : FileTree) (path : String) (left : Nat) (place : Location) : Prop where
  ne_empty : path ≠ ""
  no_zero : Char.ofNat 0 ∉ path.toList
  short : path.utf8ByteSize ≤ maxPath
  leads : tree.Leads maxLinks (tree.origin path) (steps path) left place

section Reaches

variable {tree : FileTree} {path : String} {left : Nat} {place : Location}

theorem seek_eq_ok_iff : tree.seek path = .ok place ↔ ∃ left, tree.Reaches path left place := by
  rw [seek]
  constructor
  · intro h
    cases haccepted : accepted path with
    | error cause =>
        rw [haccepted] at h
        cases h
    | ok todo =>
        obtain ⟨rfl, hshort⟩ := accepted_eq_ok haccepted
        rw [haccepted] at h
        obtain ⟨left, hleads⟩ := walk_eq_ok_iff.mp h
        obtain ⟨hne, hzero⟩ := checked_of_accepted haccepted
        exact ⟨left, hne, hzero, hshort, hleads⟩
  · rintro ⟨left, hne, hzero, hshort, hleads⟩
    rw [accepted_of_short hne hzero hshort]
    exact walk_eq_ok_iff.mpr ⟨left, hleads⟩

theorem isDirectory_iff :
    tree.isDirectory path = true ↔
      ∃ left place, tree.Reaches path left place ∧ tree.isDirectoryAt place = true := by
  rw [isDirectory, find?]
  constructor
  · intro h
    split at h
    · rename_i place hseek
      obtain ⟨left, hreaches⟩ := seek_eq_ok_iff.mp hseek
      exact ⟨left, place, hreaches, h⟩
    · cases h
  · rintro ⟨left, place, hreaches, hplace⟩
    rw [seek_eq_ok_iff.mpr ⟨left, hreaches⟩]
    exact hplace

theorem reaches_dot (h : tree.isDirectoryAt tree.here = true) :
    tree.Reaches "." maxLinks tree.here := by
  have hrelative : Path.isAbsolute "." = false := by decide +kernel
  refine ⟨by decide, by decide +kernel, by decide, ?_⟩
  rw [steps_dot, origin, hrelative]
  exact .stay h .done

theorem Reaches.isDirectory_eq (h : tree.Reaches path left place) :
    tree.isDirectory path = tree.isDirectoryAt place := by
  rw [isDirectory, find?, seek_eq_ok_iff.mpr ⟨left, h⟩]
  rfl

end Reaches

end FileTree

end LiveDoc
