import LiveDoc.Command.Run
import LiveDoc.Proofs.Document.Marks
import LiveDoc.Proofs.FileTree.Following
import Mathlib

namespace LiveDoc

namespace Path

-- Some slashes in a row.
def slashes (count : Nat) : String := String.ofList (List.replicate count '/')

theorem slashes_succ (count : Nat) : slashes (count + 1) = "/" ++ slashes count := by
  apply String.toList_injective
  simp [slashes, List.replicate_succ]

theorem endsWith_slash_iff {path : String} :
    path.endsWith "/" = true ↔ ∃ front, path = front ++ "/" := by
  rw [String.endsWith_eq_endsWith_toSlice, String.Slice.endsWith_string_iff]
  constructor
  · rintro ⟨front, hfront⟩
    refine ⟨String.ofList front, String.toList_injective ?_⟩
    simpa using hfront.symm
  · rintro ⟨front, rfl⟩
    exact ⟨front.toList, by simp⟩

theorem endsWith_append {back : String} (h : back ≠ "") (front : String) :
    (front ++ back).endsWith "/" = back.endsWith "/" := by
  have hlast : ∀ path : String, path.endsWith "/" = true ↔ path.toList.getLast? = some '/' := by
    intro path
    rw [String.endsWith_eq_endsWith_toSlice, String.Slice.endsWith_string_iff,
      String.copy_toSlice, List.getLast?_eq_some_iff]
    exact exists_congr fun _ => eq_comm
  have hne : back.toList ≠ [] := by simpa using h
  rw [Bool.eq_iff_iff, hlast, hlast, String.toList_append, List.getLast?_append_of_ne_nil _ hne]

theorem isAbsolute_append {front : String} (h : front ≠ "") (back : String) :
    isAbsolute (front ++ back) = isAbsolute front := by
  have hne : front.toList ≠ [] := by simpa using h
  obtain ⟨c, rest, hfront⟩ := List.exists_cons_of_ne_nil hne
  rw [Bool.eq_iff_iff, isAbsolute, isAbsolute, String.startsWith_string_iff,
    String.startsWith_string_iff, String.toList_append, hfront]
  simp

theorem join_of_absolute {path : String} (h : isAbsolute path = true) (base : String) :
    join base path = path := if_pos h

theorem join_empty {path : String} (h : isAbsolute path = false) : join "" path = path := by
  rw [join, h]
  simp

-- A path that is joined to a directory stands behind it and a slash.
theorem join_eq {base path : String} (hbase : base ≠ "") (h : isAbsolute path = false) :
    ∃ front, join base path = front ++ "/" ++ path ∧ (base = front ∨ base = front ++ "/") := by
  have hsome : base.isEmpty = false := by simpa using hbase
  cases hslash : base.endsWith "/" with
  | true =>
      obtain ⟨front, rfl⟩ := endsWith_slash_iff.mp hslash
      refine ⟨front, ?_, .inr rfl⟩
      rw [join, h, hsome, hslash]
      rfl
  | false =>
      refine ⟨base, ?_, .inl rfl⟩
      rw [join, h, hsome, hslash]
      rfl

-- A directory without the slashes at its end.
structure Trims (directory trimmed : String) (count : Nat) : Prop where
  directory_eq : directory = trimmed ++ slashes count
  ne_empty : trimmed ≠ ""
  unclosed : trimmed.endsWith "/" = false
  trimmed_eq : trimmed = String.ofList (Text.trimEnd (· == '/') directory.toList)

theorem exists_trims {directory : String} (h : ∃ c ∈ directory.toList, c ≠ '/') :
    ∃ trimmed count, Trims directory trimmed count := by
  obtain ⟨trailing, htext, hslash⟩ := exists_trimEnd (· == '/') directory.toList
  have hall : trailing = List.replicate trailing.length '/' :=
    List.eq_replicate_iff.mpr ⟨rfl, fun c hc => by simpa using hslash c hc⟩
  refine ⟨_, trailing.length, ?_, ?_, ?_, rfl⟩
  · apply String.toList_injective
    rw [String.toList_append, String.toList_ofList, slashes, String.toList_ofList, ← hall, ← htext]
  · intro hempty
    have hnil : Text.trimEnd (· == '/') directory.toList = [] := by simpa using hempty
    rw [hnil, List.nil_append] at htext
    obtain ⟨c, hc, hne⟩ := h
    rw [htext] at hc
    exact hne (by simpa using hslash c hc)
  · rw [← Bool.not_eq_true, endsWith_slash_iff]
    rintro ⟨front, hfront⟩
    have hlist := congrArg String.toList hfront
    rw [String.toList_ofList, String.toList_append] at hlist
    have hlast : (Text.trimEnd (· == '/') directory.toList).getLast? = some '/' := by
      rw [hlist]
      simp
    have hnot := trimEnd_getLast_not hlast
    cases hnot

end Path

theorem steps_slashes (count : Nat) (path : String) :
    steps (Path.slashes count ++ path) = List.replicate count .stay ++ steps path := by
  induction count with
  | zero =>
      have hnone : Path.slashes 0 ++ path = path := by
        apply String.toList_injective
        simp [Path.slashes]
      rw [hnone]
      rfl
  | succ count ih =>
      have hcut : Path.slashes (count + 1) ++ path = "" ++ "/" ++ (Path.slashes count ++ path) := by
        rw [Path.slashes_succ]
        apply String.toList_injective
        simp
      rw [hcut, steps_append_slash, steps_empty, ih, List.replicate_succ]
      rfl

theorem relative_of_component {name : String} (h : steps name = [.name name]) :
    Path.isAbsolute name = false := by
  rw [← Bool.not_eq_true, Path.isAbsolute_iff]
  rintro ⟨piece, rest, hpieces⟩
  have hlength := congrArg List.length h
  rw [steps, List.length_map, hpieces] at hlength
  simp at hlength

namespace Path

-- Between a directory and a name there is at least one slash.
theorem join_slashes {front name : String} (hfront : front ≠ "")
    (hopen : front.endsWith "/" = false) (hname : isAbsolute name = false) (count : Nat) :
    ∃ more, join (front ++ slashes count) name = front ++ "/" ++ (slashes more ++ name) := by
  have hsome : ∀ back, (front ++ back).isEmpty = false := fun back => by simp [hfront]
  cases count with
  | zero =>
      refine ⟨0, ?_⟩
      have hnone : slashes 0 = "" := rfl
      have hempty : front.isEmpty = false := by simpa using hfront
      rw [hnone, String.append_empty, join, hname, hempty, hopen]
      rfl
  | succ count =>
      refine ⟨count, ?_⟩
      have hslash : (front ++ slashes (count + 1)).endsWith "/" = true := by
        refine endsWith_slash_iff.mpr ⟨front ++ slashes count, String.toList_injective ?_⟩
        simp [slashes, List.replicate_succ']
      rw [join, hname, hsome, hslash, slashes_succ]
      simp [String.append_assoc]

theorem directory_ne_empty (path : String) : directory path ≠ "" := by
  unfold directory
  split
  · decide
  · split
    · decide
    · rename_i hparent
      simpa using hparent

end Path

namespace Command

variable {tree : FileTree} {layout : Layout} {output : Option String} {name : String}

-- Where the references of a document are read from: the directory that it lies in.
def home (tree : FileTree) : Option String → Location
  | some path => (tree.placeOf path).tail
  | none => tree.here

theorem follow_home {path front last : String} {init : List Step}
    (hpath : steps path = init ++ [.name last])
    (hfront : Path.directory path = front ∨ Path.directory path = front ++ "/") (rest : String) :
    home tree (some path) = follow (tree.origin (front ++ "/" ++ rest)) (steps front) := by
  have hne := Path.directory_ne_empty path
  have hsame : (∀ place, follow place (steps front) = follow place (steps (Path.directory path))) ∧
      Path.isAbsolute (front ++ "/" ++ rest) = Path.isAbsolute (Path.directory path) := by
    rcases hfront with hfront | hfront <;> rw [hfront] at hne ⊢
    · refine ⟨fun place => rfl, ?_⟩
      rw [String.append_assoc]
      exact Path.isAbsolute_append hne _
    · refine ⟨fun place => ?_, Path.isAbsolute_append hne rest⟩
      rw [← @String.append_empty (front ++ "/"), steps_append_slash, steps_empty, follow_append]
      rfl
  obtain ⟨habsolute, hfollow⟩ := follow_directory hpath
  rw [hsame.1, hfollow, FileTree.origin, hsame.2, habsolute, home, FileTree.placeOf, hpath,
    follow_append]
  rfl

-- A directory that is not the root, written in whatever number of slashes.
def NotSlashes (directory : String) : Prop :=
  directory = "" ∨ ∃ c ∈ directory.toList, c ≠ '/'

-- A reference leads from a directory along the last part of the way to a file.
def Route (tree : FileTree) (base : Location) (reference path name : String) : Prop :=
  ∃ lead route idle, Idle idle ∧
    steps path = lead ++ (route ++ (idle ++ [.name name])) ∧
    steps reference = route ++ [.name name] ∧
    (if Path.isAbsolute reference then [] else base) = follow (tree.origin path) lead

theorem idle_nil : Idle [] := fun _ h => nomatch h

theorem idle_stays (count : Nat) : Idle (List.replicate count .stay) :=
  fun _ hstep => List.eq_of_mem_replicate hstep

section Routes

variable (hname : steps name = [.name name])

include hname

theorem steps_below (front : String) :
    steps (front ++ "/" ++ name) = steps front ++ [.name name] := by
  rw [steps_append_slash, hname]

-- Without a directory of their own, files lie beside the document.
theorem route_beside (tree : FileTree)
    (houtput : ∀ path, output = some path → ∃ front last, steps path = front ++ [.name last]) :
    Route tree (home tree output) name (Path.join (artifactPlace output "") name) name := by
  have hrelative := relative_of_component hname
  cases output with
  | none =>
      have hjoin : Path.join (artifactPlace none "") name = name := Path.join_empty hrelative
      refine ⟨[], [], [], idle_nil, ?_, hname, ?_⟩
      · rw [hjoin, hname]
        rfl
      · rw [hjoin, hrelative, FileTree.origin, hrelative]
        rfl
  | some path =>
      obtain ⟨init, last, hpath⟩ := houtput path rfl
      have hplain : Path.isAbsolute "" = false := by decide
      obtain ⟨front, hplace, hfront⟩ := Path.join_eq (Path.directory_ne_empty path) hplain
      have hjoin : Path.join (artifactPlace (some path) "") name = front ++ "/" ++ name := by
        have hslash : (front ++ "/" ++ "").endsWith "/" = true :=
          Path.endsWith_slash_iff.mpr ⟨front, by rw [String.append_empty]⟩
        rw [artifactPlace, hplace, Path.join, hrelative, hslash, String.append_empty]
        simp
      refine ⟨steps front, [], [], idle_nil, ?_, hname, ?_⟩
      · rw [hjoin, steps_append_slash, hname]
        rfl
      · rw [hjoin, hrelative]
        exact follow_home hpath hfront name

variable {directory trimmed : String} {count : Nat} (htrims : Path.Trims directory trimmed count)

include htrims

omit hname in
theorem isAbsolute_trimmed (rest : String) :
    Path.isAbsolute (trimmed ++ "/" ++ rest) = Path.isAbsolute trimmed := by
  rw [String.append_assoc, Path.isAbsolute_append htrims.ne_empty]

-- The directory as it is, below the working directory or below the root.
theorem route_plain (tree : FileTree) {base : Location}
    (hbase : Path.isAbsolute trimmed = false → base = tree.here) :
    Route tree base (trimmed ++ "/" ++ name) (Path.join directory name) name := by
  obtain ⟨more, hjoin⟩ := Path.join_slashes htrims.ne_empty htrims.unclosed
    (relative_of_component hname) count
  refine ⟨[], steps trimmed, List.replicate more .stay, idle_stays more, ?_,
    steps_below hname trimmed, ?_⟩
  · rw [htrims.directory_eq, hjoin, steps_append_slash, steps_slashes, hname]
    rfl
  · rw [htrims.directory_eq, hjoin, FileTree.origin, isAbsolute_trimmed htrims,
      isAbsolute_trimmed htrims]
    cases htop : Path.isAbsolute trimmed with
    | true => rfl
    | false => exact hbase htop

-- The directory below the one that the document lies in.
theorem route_below (tree : FileTree) {path last : String} {init : List Step}
    (hpath : steps path = init ++ [.name last]) (hroot : Path.isAbsolute trimmed = false) :
    Route tree (home tree (some path)) (trimmed ++ "/" ++ name)
      (Path.join (artifactPlace (some path) directory) name) name := by
  have htop : Path.isAbsolute directory = false := by
    rw [htrims.directory_eq, Path.isAbsolute_append htrims.ne_empty, hroot]
  obtain ⟨front, hplace, hfront⟩ := Path.join_eq (Path.directory_ne_empty path) htop
  have hlong : front ++ "/" ++ trimmed ≠ "" := by simp
  have hkept : (front ++ "/" ++ trimmed).endsWith "/" = false := by
    rw [Path.endsWith_append htrims.ne_empty, htrims.unclosed]
  obtain ⟨more, hjoin⟩ := Path.join_slashes hlong hkept (relative_of_component hname) count
  rw [String.append_assoc, ← htrims.directory_eq, ← hplace] at hjoin
  refine ⟨steps front, steps trimmed, List.replicate more .stay, idle_stays more, ?_,
    steps_below hname trimmed, ?_⟩
  · rw [artifactPlace, hjoin, steps_append_slash, steps_append_slash, steps_slashes, hname,
      List.append_assoc]
  · rw [artifactPlace, hjoin, isAbsolute_trimmed htrims, hroot, String.append_assoc,
      String.append_assoc]
    exact follow_home hpath hfront _

end Routes

theorem route_reference (tree : FileTree)
    (hdirectory : NotSlashes layout.artifactDirectory)
    (houtput : ∀ path, output = some path → ∃ front last, steps path = front ++ [.name last])
    (hname : steps name = [.name name]) :
    Route tree (home tree output) (layout.reference name)
      (Path.join (artifactPlace output layout.artifactDirectory) name) name := by
  rcases hdirectory with hempty | hsome
  · have hreference : layout.reference name = name := by
      rw [Layout.reference, hempty]
      rfl
    rw [hreference, hempty]
    exact route_beside hname tree houtput
  · obtain ⟨trimmed, count, htrims⟩ := Path.exists_trims hsome
    have hreference : layout.reference name = trimmed ++ "/" ++ name := by
      have hempty : trimmed.isEmpty = false := by simpa using htrims.ne_empty
      rw [Layout.reference, ← htrims.trimmed_eq, hempty]
      rfl
    rw [hreference]
    cases output with
    | none => exact route_plain hname htrims tree fun _ => rfl
    | some path =>
        obtain ⟨init, last, hpath⟩ := houtput path rfl
        cases hroot : Path.isAbsolute trimmed with
        | false => exact route_below hname htrims tree hpath hroot
        | true =>
            have htop : Path.isAbsolute layout.artifactDirectory = true := by
              rw [htrims.directory_eq, Path.isAbsolute_append htrims.ne_empty, hroot]
            rw [artifactPlace, Path.join_of_absolute htop]
            refine route_plain hname htrims tree fun hfalse => ?_
            cases hroot.symm.trans hfalse

end Command

end LiveDoc
