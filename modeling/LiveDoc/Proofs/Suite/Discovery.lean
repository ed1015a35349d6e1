import LiveDoc.Suite.Run
import LiveDoc.Proofs.Command.References
import LiveDoc.Proofs.Data.NameTable
import LiveDoc.Proofs.FileTree.Trails

namespace LiveDoc

-- A name that an entry of a directory can have.
structure IsEntryName (name : String) : Prop where
  ne_empty : name ≠ ""
  ne_dot : name ≠ "."
  ne_dots : name ≠ ".."
  no_slash : '/' ∉ name.toList
  no_zero : Char.ofNat 0 ∉ name.toList

theorem IsEntryName.steps_eq {name : String} (h : IsEntryName name) : steps name = [.name name] :=
  steps_of_component h.no_slash h.ne_empty h.ne_dot h.ne_dots

def FileTree.Named (tree : FileTree) : Prop := ∀ e ∈ tree.entries, ∀ name ∈ e.1, IsEntryName name

namespace Path

theorem joined_append {front back : List String} (hfront : front ≠ []) (hback : back ≠ []) :
    Text.joined "/" (front ++ back) = Text.joined "/" front ++ "/" ++ Text.joined "/" back := by
  induction front with
  | nil => exact (hfront rfl).elim
  | cons first rest ih =>
      cases rest with
      | nil =>
          obtain ⟨second, more, rfl⟩ := List.exists_cons_of_ne_nil hback
          rfl
      | cons second more =>
          rw [List.cons_append, List.cons_append, joined_cons_cons, joined_cons_cons,
            ← List.cons_append, ih (List.cons_ne_nil _ _)]
          simp [String.append_assoc]

theorem joined_concat {folders : List String} (h : ∀ own ∈ folders, own ≠ "") (name : String) :
    Text.joined "/" (folders ++ [name]) =
      if (Text.joined "/" folders).isEmpty then name
      else Text.joined "/" folders ++ "/" ++ name := by
  cases folders with
  | nil => rfl
  | cons first rest =>
      have hfirst := h first (List.mem_cons_self ..)
      have hne : (Text.joined "/" (first :: rest)).isEmpty = false := by
        cases rest with
        | nil => simpa [Text.joined] using hfirst
        | cons second more => simp [joined_cons_cons, hfirst]
      rw [hne, joined_append (List.cons_ne_nil _ _) (List.cons_ne_nil _ _)]
      rfl

end Path

namespace Suite

-- A way from the root of a suite: the folders that it goes through and the name at its end.
structure Way where
  folders : List String
  name : String
  deriving DecidableEq

def Way.names (way : Way) : List String := way.folders ++ [way.name]

def pathOf (root : String) (folders : List String) : String := folders.foldl Path.join root

def Way.path (root : String) (way : Way) : String := Path.join (pathOf root way.folders) way.name

def Way.category (way : Way) : String := forwardSlashes (Text.joined "/" way.folders)

-- A way to a test: it goes through directories, or links to such, and ends at an entry of the last one
-- that has the name of a test and is no directory.
structure IsTest (tree : FileTree) (root : String) (way : Way) : Prop where
  names : ∀ name ∈ way.names, IsEntryName name
  start : tree.isDirectory root = true
  folder : tree.isDirectory (pathOf root way.folders) = true
  held : ∃ place, tree.seek (pathOf root way.folders) = .ok place ∧
    tree.entry? (way.name :: place) ≠ none
  file : tree.isDirectory (way.path root) = false
  suffix : way.name.endsWith testSuffix = true

section Paths

variable {tree : FileTree} {root name : String} {folders : List String} {left : Nat}
  {place last : Location}

theorem pathOf_concat (root : String) (folders : List String) (name : String) :
    pathOf root (folders ++ [name]) = Path.join (pathOf root folders) name := by
  rw [pathOf, List.foldl_append]
  rfl

theorem pathOf_ne_empty (hroot : root ≠ "") (hfolders : ∀ name ∈ folders, IsEntryName name) :
    pathOf root folders ≠ "" := by
  induction folders using List.reverseRecOn with
  | nil => exact hroot
  | append_singleton front name ih =>
      rw [pathOf_concat]
      have hname := (hfolders name (by simp)).steps_eq
      obtain ⟨base, hjoin, -⟩ := Path.join_eq
        (ih fun name hname => hfolders name (List.mem_append_left _ hname))
        (relative_of_component hname)
      rw [hjoin]
      simp

theorem steps_join {base : String} (hbase : base ≠ "") (hopen : base.endsWith "/" = false)
    (hname : IsEntryName name) : steps (Path.join base name) = steps base ++ [.name name] := by
  have hsome : base.isEmpty = false := by simpa using hbase
  rw [Path.join, relative_of_component hname.steps_eq, hsome, hopen, ← hname.steps_eq]
  exact steps_append_slash base name

theorem exists_steps_join (hroot : root ≠ "") :
    ∃ base, ∀ name, IsEntryName name → steps (Path.join root name) = base ++ [.name name] := by
  cases hslash : root.endsWith "/" with
  | false => exact ⟨steps root, fun name hname => steps_join hroot hslash hname⟩
  | true =>
      obtain ⟨front, rfl⟩ := Path.endsWith_slash_iff.mp hslash
      refine ⟨steps front, fun name hname => ?_⟩
      have hsome : (front ++ "/").isEmpty = false := by simp
      rw [Path.join, relative_of_component hname.steps_eq, hsome, hslash, ← hname.steps_eq]
      exact steps_append_slash front name

theorem endsWith_join {base : String} (hbase : base ≠ "") (hname : IsEntryName name) :
    (Path.join base name).endsWith "/" = false := by
  obtain ⟨front, hjoin, -⟩ := Path.join_eq hbase (relative_of_component hname.steps_eq)
  rw [hjoin, Path.endsWith_append hname.ne_empty, ← Bool.not_eq_true, Path.endsWith_slash_iff]
  rintro ⟨own, rfl⟩
  exact hname.no_slash (by simp)

theorem steps_pathOf {base : List Step} (hroot : root ≠ "")
    (hbase : ∀ name, IsEntryName name → steps (Path.join root name) = base ++ [.name name])
    {names : List String} (hnames : ∀ name ∈ names, IsEntryName name) (hne : names ≠ []) :
    steps (pathOf root names) = base ++ names.map .name := by
  induction names using List.reverseRecOn with
  | nil => exact (hne rfl).elim
  | append_singleton front name ih =>
      obtain ⟨hfront, hname⟩ := List.forall_mem_append.mp hnames
      have hown := hname name (by simp)
      rcases List.eq_nil_or_concat' front with rfl | ⟨rest, last, rfl⟩
      · exact hbase name hown
      · obtain ⟨hrest, hlast⟩ := List.forall_mem_append.mp hfront
        have hopen : (pathOf root (rest ++ [last])).endsWith "/" = false := by
          rw [pathOf_concat]
          exact endsWith_join (pathOf_ne_empty hroot hrest) (hlast last (by simp))
        rw [pathOf_concat, steps_join (pathOf_ne_empty hroot hfront) hopen hown,
          ih hfront (by simp)]
        simp

-- Two ways do not have the same path.
theorem Way.path_inj {way other : Way} (hroot : root ≠ "")
    (hway : ∀ name ∈ way.names, IsEntryName name) (hother : ∀ name ∈ other.names, IsEntryName name)
    (h : way.path root = other.path root) : way = other := by
  obtain ⟨base, hbase⟩ := exists_steps_join hroot
  have hpath : ∀ own : Way, own.path root = pathOf root own.names := fun own =>
    (pathOf_concat root own.folders own.name).symm
  have hnames : way.names.map Step.name = other.names.map Step.name := by
    rw [← List.append_cancel_left_eq base, ← steps_pathOf hroot hbase hway (by simp [names]),
      ← steps_pathOf hroot hbase hother (by simp [names]), ← hpath, ← hpath, h]
  have heq := List.map_injective_iff.mpr (fun a b hab => Step.name.inj hab) hnames
  obtain ⟨folders, name⟩ := way
  obtain ⟨others, last⟩ := other
  obtain ⟨rfl, hlast⟩ := List.append_inj' heq rfl
  cases hlast
  rfl

-- A path into a directory leads to the directory first.
theorem reaches_join_iff {base : String} (hbase : base ≠ "") (hname : IsEntryName name) :
    tree.Reaches (Path.join base name) left last ↔
      (Path.join base name).utf8ByteSize ≤ FileTree.maxPath ∧
        ∃ links place, tree.Reaches base links place ∧
          tree.Leads links place [.name name] left last := by
  obtain ⟨front, hjoin, hfront⟩ := Path.join_eq hbase (relative_of_component hname.steps_eq)
  have horigin : tree.origin (front ++ "/" ++ name) = tree.origin base := by
    rw [FileTree.origin, FileTree.origin]
    rcases hfront with rfl | rfl
    · rw [String.append_assoc, Path.isAbsolute_append hbase]
    · rw [Path.isAbsolute_append hbase]
  have hsteps : steps (front ++ "/" ++ name) = steps front ++ [.name name] := by
    rw [steps_append_slash, hname.steps_eq]
  have hslash : steps (front ++ "/") = steps front ++ [.stay] := by
    rw [← steps_empty, ← steps_append_slash, String.append_empty]
  rw [hjoin]
  constructor
  · rintro ⟨-, hzero, hshort, hleads⟩
    refine ⟨hshort, ?_⟩
    rw [hsteps, horigin] at hleads
    obtain ⟨links, place, hhead, hlast⟩ := hleads.split
    rw [String.append_assoc, String.toList_append] at hzero
    refine ⟨links, place, ⟨hbase, fun hmem => hzero ?_, le_trans ?_ hshort, ?_⟩, hlast⟩
    · rcases hfront with rfl | rfl
      · exact List.mem_append_left _ hmem
      · simpa using Or.inl hmem
    · rcases hfront with rfl | rfl <;> simp only [String.utf8ByteSize_append] <;> omega
    · rcases hfront with rfl | rfl
      · exact hhead
      · rw [hslash]
        exact hhead.append (.stay hlast.inside .done)
  · rintro ⟨hshort, links, place, ⟨-, hzero, -, hhead⟩, hlast⟩
    refine ⟨by simp, ?_, hshort, ?_⟩
    · rcases hfront with rfl | rfl <;> simp_all [hname.no_zero]
    · rw [hsteps, horigin]
      rcases hfront with rfl | rfl
      · exact hhead.append hlast
      · rw [hslash] at hhead
        obtain ⟨links', middle, hown, hstay⟩ := hhead.split
        cases hstay with
        | stay _ hdone =>
            cases hdone
            exact hown.append hlast

theorem isDirectory_of_append (hroot : root ≠ "") {more : List String}
    (hfolders : ∀ own ∈ folders ++ more, IsEntryName own)
    (h : tree.isDirectory (pathOf root (folders ++ more)) = true) :
    tree.isDirectory (pathOf root folders) = true := by
  induction more using List.reverseRecOn with
  | nil => rwa [List.append_nil] at h
  | append_singleton more name ih =>
      rw [← List.append_assoc] at h hfolders
      obtain ⟨hfront, hname⟩ := List.forall_mem_append.mp hfolders
      rw [pathOf_concat] at h
      obtain ⟨left, last, hreaches, -⟩ := FileTree.isDirectory_iff.mp h
      obtain ⟨-, links, place, hbase, hlast⟩ :=
        (reaches_join_iff (pathOf_ne_empty hroot hfront) (hname name (by simp))).mp hreaches
      exact ih hfront (FileTree.isDirectory_iff.mpr ⟨links, place, hbase, hlast.inside⟩)

theorem ne_empty_of_isDirectory {path : String} (h : tree.isDirectory path = true) : path ≠ "" := by
  obtain ⟨left, place, hreaches, -⟩ := FileTree.isDirectory_iff.mp h
  exact hreaches.ne_empty

-- Each folder takes some of the room that there is at the root.
theorem room_add_length_lt (hroot : root ≠ "")
    (hfolders : ∀ name ∈ folders, IsEntryName name)
    (h : tree.Reaches (pathOf root folders) left place) (hplace : tree.isDirectoryAt place = true) :
    tree.room left place + folders.length < (FileTree.maxLinks + 1) * (tree.height + 1) := by
  induction folders using List.reverseRecOn generalizing left place with
  | nil => exact FileTree.room_lt_of_links h.leads.le place
  | append_singleton front name ih =>
      obtain ⟨hfront, hname⟩ := List.forall_mem_append.mp hfolders
      rw [pathOf_concat] at h
      obtain ⟨-, links, middle, hbase, hlast⟩ :=
        (reaches_join_iff (pathOf_ne_empty hroot hfront) (hname name (by simp))).mp h
      have hlt := hlast.room_lt hplace
      have hroom := ih hfront hbase hlast.inside
      rw [List.length_append, List.length_singleton]
      omega

-- Links that lead back up come to an end.
theorem length_lt_of_isDirectory (hroot : root ≠ "")
    (hfolders : ∀ name ∈ folders, IsEntryName name)
    (h : tree.isDirectory (pathOf root folders) = true) :
    folders.length < (FileTree.maxLinks + 1) * (tree.height + 1) := by
  obtain ⟨left, place, hreaches, hplace⟩ := FileTree.isDirectory_iff.mp h
  have hroom := room_add_length_lt hroot hfolders hreaches hplace
  omega

end Paths

section Reached

variable {tree : FileTree} {root : String} {way : Way} {links left : Nat} {place last : Location}

theorem reaches_path (hnames : ∀ name ∈ way.names, IsEntryName name) (hroot : root ≠ "")
    (hshort : (way.path root).utf8ByteSize ≤ FileTree.maxPath)
    (h : tree.Reaches (pathOf root way.folders) links place)
    (hlast : tree.Leads links place [.name way.name] left last) :
    tree.Reaches (way.path root) left last := by
  obtain ⟨hfolders, hname⟩ := List.forall_mem_append.mp hnames
  exact (reaches_join_iff (pathOf_ne_empty hroot hfolders) (hname way.name (by simp))).mpr
    ⟨hshort, links, place, h, hlast⟩

theorem isTest_of_reaches (hnames : ∀ name ∈ way.names, IsEntryName name)
    (hstart : tree.isDirectory root = true)
    (hshort : (way.path root).utf8ByteSize ≤ FileTree.maxPath) (h : tree.Reaches (pathOf root way.folders) links place)
    (hlast : tree.Leads links place [.name way.name] left last)
    (hfile : tree.isDirectoryAt last = false) (hsuffix : way.name.endsWith testSuffix = true) :
    IsTest tree root way := by
  have hpath := reaches_path hnames (ne_empty_of_isDirectory hstart) hshort h hlast
  refine ⟨hnames, hstart, h.isDirectory_eq.trans hlast.inside,
    ⟨place, FileTree.seek_eq_ok_iff.mpr ⟨links, h⟩, fun hnone => ?_⟩,
    hpath.isDirectory_eq.trans hfile, hsuffix⟩
  exact FileTree.entry?_eq_none_iff.mp hnone hlast.present

end Reached

-- The tests among what one name of a directory leads to, when `inner` has those of its folders.
def under (tree : FileTree) (root : String) (inner : List String → List Way)
    (folders : List String) (name : String) : List Way :=
  if tree.isDirectory (Path.join (pathOf root folders) name) then inner (folders ++ [name])
  else if name.endsWith testSuffix then [⟨folders, name⟩]
  else []

-- The tests below a folder in the order in which they are come to.
def below (tree : FileTree) (root : String) : (depth : Nat) → (folders : List String) → List Way
  | 0, _ => []
  | depth + 1, folders =>
      match tree.seek (pathOf root folders) with
      | .error _ => []
      | .ok place => (tree.children place).flatMap (under tree root (below tree root depth) folders)

section Below

variable {tree : FileTree} {root name : String} {folders : List String} {depth : Nat} {way : Way}
  {inner : List String → List Way}

theorem mem_under : way ∈ under tree root inner folders name ↔
    tree.isDirectory (pathOf root (folders ++ [name])) = true ∧ way ∈ inner (folders ++ [name]) ∨
      tree.isDirectory (pathOf root (folders ++ [name])) = false ∧
        name.endsWith testSuffix = true ∧ way = ⟨folders, name⟩ := by
  rw [under, pathOf_concat]
  split
  · simp [*]
  · split <;> simp [*]

theorem isEntryName_of_mem_children (hnamed : tree.Named) {place : Location}
    (h : name ∈ tree.children place) : IsEntryName name := by
  rcases FileTree.mem_children.mp h with hnil | ⟨e, he, hsuffix⟩
  · cases hnil
  · exact hnamed e he name (hsuffix.subset (List.mem_cons_self ..))

theorem isTest_of_mem_below (hnamed : tree.Named) (hstart : tree.isDirectory root = true)
    (hfolders : ∀ own ∈ folders, IsEntryName own)
    (hdirectory : tree.isDirectory (pathOf root folders) = true)
    (h : way ∈ below tree root depth folders) : IsTest tree root way := by
  induction depth generalizing folders with
  | zero => cases h
  | succ depth ih =>
      rw [below] at h
      split at h
      · cases h
      · rename_i place hplace
        obtain ⟨name, hname, hway⟩ := List.mem_flatMap.mp h
        have hnames : ∀ own ∈ folders ++ [name], IsEntryName own := List.forall_mem_append.mpr
          ⟨hfolders, by simpa using isEntryName_of_mem_children hnamed hname⟩
        rcases mem_under.mp hway with ⟨hinner, hmem⟩ | ⟨hfile, hsuffix, rfl⟩
        · exact ih hnames hinner hmem
        · have hheld : tree.entry? (name :: place) ≠ none := fun hnone =>
            FileTree.entry?_eq_none_iff.mp hnone (FileTree.mem_children.mp hname)
          refine ⟨hnames, hstart, hdirectory, ⟨place, hplace, hheld⟩, ?_, hsuffix⟩
          rw [Way.path, ← pathOf_concat]
          exact hfile

-- The limit for the depth leaves room for every folder that there can be.
theorem mem_below_of_isTest (h : IsTest tree root way) {more : List String}
    (hway : way.folders = folders ++ more)
    (hdepth : folders.length + depth = (FileTree.maxLinks + 1) * (tree.height + 1)) :
    way ∈ below tree root depth folders := by
  have hroot := ne_empty_of_isDirectory h.start
  have hnames : ∀ name ∈ folders ++ more, IsEntryName name := fun name hname =>
    h.names name (List.mem_append_left _ (hway ▸ hname))
  have hfolders := fun name hname => hnames name (List.mem_append_left _ hname)
  induction more generalizing folders depth with
  | nil =>
      rw [List.append_nil] at hway
      subst hway
      have hlt := length_lt_of_isDirectory hroot hfolders h.folder
      obtain ⟨depth, rfl⟩ : ∃ own, depth = own + 1 := ⟨depth - 1, by omega⟩
      obtain ⟨place, hplace, hheld⟩ := h.held
      rw [below, hplace]
      refine List.mem_flatMap.mpr ⟨way.name, FileTree.mem_children.mpr ?_, mem_under.mpr (.inr ?_)⟩
      · by_contra habsent
        exact hheld (FileTree.entry?_eq_none_iff.mpr habsent)
      · rw [pathOf_concat]
        exact ⟨h.file, h.suffix, rfl⟩
  | cons name more ih =>
      have hsplit : folders ++ name :: more = (folders ++ [name]) ++ more := by simp
      rw [hsplit] at hway hnames
      have hinner : tree.isDirectory (pathOf root (folders ++ [name])) = true :=
        isDirectory_of_append hroot hnames (hway ▸ h.folder)
      have hown := fun name hname => hnames name (List.mem_append_left more hname)
      obtain ⟨left, last, hreaches, -⟩ := FileTree.isDirectory_iff.mp hinner
      rw [pathOf_concat] at hreaches
      obtain ⟨-, links, place, hbase, hlast⟩ := (reaches_join_iff
        (pathOf_ne_empty hroot hfolders) (hown name (by simp))).mp hreaches
      have hlt := length_lt_of_isDirectory hroot hown hinner
      rw [List.length_append, List.length_singleton] at hlt
      obtain ⟨depth, rfl⟩ : ∃ own, depth = own + 1 := ⟨depth - 1, by omega⟩
      rw [below, FileTree.seek_eq_ok_iff.mpr ⟨links, hbase⟩]
      refine List.mem_flatMap.mpr ⟨name, FileTree.mem_children.mpr ?_,
        mem_under.mpr (.inl ⟨hinner, ih hway ?_ hnames hown⟩)⟩
      · exact hlast.present
      · rw [List.length_append, List.length_singleton]
        omega

theorem prefix_of_mem_under
    (hinner : ∀ way ∈ inner (folders ++ [name]), folders ++ [name] <+: way.names)
    (h : way ∈ under tree root inner folders name) : folders ++ [name] <+: way.names := by
  rcases mem_under.mp h with ⟨-, hmem⟩ | ⟨-, -, rfl⟩
  · exact hinner way hmem
  · exact List.prefix_refl _

theorem prefix_of_mem_below (h : way ∈ below tree root depth folders) : folders <+: way.names := by
  induction depth generalizing folders way with
  | zero => cases h
  | succ depth ih =>
      rw [below] at h
      split at h
      · cases h
      · obtain ⟨name, -, hway⟩ := List.mem_flatMap.mp h
        exact (List.prefix_append folders [name]).trans
          (prefix_of_mem_under (fun own hown => ih hown) hway)

theorem append_cons_lt {first second : String} (h : first < second) (front rest more : List String) :
    front ++ first :: rest < front ++ second :: more := by
  induction front with
  | nil => exact List.cons_lt_cons_iff.mpr (.inl h)
  | cons own front ih => exact List.cons_lt_cons_iff.mpr (.inr ⟨rfl, ih⟩)

-- Ways are come to in the order of their names.
theorem below_ascending (tree : FileTree) (root : String) (depth : Nat) (folders : List String) :
    (below tree root depth folders).Pairwise (·.names < ·.names) := by
  induction depth generalizing folders with
  | zero => exact .nil
  | succ depth ih =>
      rw [below]
      split
      · exact .nil
      · rename_i place hplace
        refine List.pairwise_flatMap.mpr ⟨fun name hname => ?_, ?_⟩
        · rw [under]
          split
          · exact ih (folders ++ [name])
          · split
            · exact List.pairwise_singleton _ _
            · exact .nil
        · -- The ways by one name come before those by a later one, whatever follows the names.
          refine (FileTree.children_ascending tree place).imp ?_
          intro first second hlt way hway later hlater
          obtain ⟨rest, hrest⟩ := prefix_of_mem_under (fun own hown => prefix_of_mem_below hown) hway
          obtain ⟨more, hmore⟩ := prefix_of_mem_under (fun own hown => prefix_of_mem_below hown) hlater
          rw [← hrest, ← hmore, List.append_assoc, List.append_assoc]
          exact append_cons_lt hlt folders rest more

end Below

-- The ways to the tests of a suite.
def found (tree : FileTree) (root : String) : List Way :=
  if tree.isDirectory root then
    below tree root ((FileTree.maxLinks + 1) * (tree.height + 1)) []
  else []

theorem mem_found_iff {tree : FileTree} {root : String} {way : Way} (hnamed : tree.Named) :
    way ∈ found tree root ↔ IsTest tree root way := by
  rw [found]
  split
  · rename_i hstart
    refine ⟨fun h => ?_, fun h => mem_below_of_isTest h rfl (Nat.zero_add _)⟩
    exact isTest_of_mem_below hnamed hstart (List.forall_mem_nil _) hstart h
  · rename_i hstart
    exact ⟨fun h => (by cases h), fun h => (hstart h.start).elim⟩

theorem found_ascending (tree : FileTree) (root : String) :
    (found tree root).Pairwise (·.names < ·.names) := by
  rw [found]
  split
  · exact below_ascending tree root _ []
  · exact .nil

-- A test goes to the end of its category.
def addWay (root : String) (table : NameTable (List String)) (way : Way) : NameTable (List String) :=
  NameTable.put way.category
    ((NameTable.find? way.category table).getD [] ++ [way.path root]) table

theorem collect_eq {tree : FileTree} {root : String} (hnamed : tree.Named) (depth : Nat)
    {folders : List String} (hfolders : ∀ own ∈ folders, IsEntryName own)
    (table : NameTable (List String)) :
    collect tree depth (pathOf root folders) (Text.joined "/" folders) table =
      (below tree root depth folders).foldl (addWay root) table := by
  induction depth generalizing folders table with
  | zero => rfl
  | succ depth ih =>
      rw [collect, below]
      cases tree.seek (pathOf root folders) with
      | error cause => rfl
      | ok place =>
          dsimp only
          rw [List.foldl_flatMap]
          refine List.foldl_ext _ _ _ fun table name hname => ?_
          have hnames : ∀ own ∈ folders ++ [name], IsEntryName own := List.forall_mem_append.mpr
            ⟨hfolders, by simpa using isEntryName_of_mem_children hnamed hname⟩
          rw [under]
          split
          · rw [← Path.joined_concat fun own hown => (hfolders own hown).ne_empty, ← pathOf_concat]
            exact ih hnames table
          · split <;> rfl

theorem discover_gathers {tree : FileTree} (root : String) (hnamed : tree.Named) :
    NameTable.Gathers Way.category (Way.path root) (found tree root) (discover tree root) := by
  rw [discover, found]
  split
  · have hcollect : ∀ depth, collect tree depth root "" [] =
        (below tree root depth []).foldl (addWay root) [] :=
      fun depth => collect_eq hnamed depth (List.forall_mem_nil _) []
    rw [hcollect]
    exact (NameTable.gathers_nil Way.category (Way.path root)).foldl _
  · exact NameTable.gathers_nil _ _

end Suite

end LiveDoc
