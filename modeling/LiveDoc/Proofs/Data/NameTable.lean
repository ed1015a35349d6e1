import LiveDoc.Data.NameTable
import Mathlib

namespace LiveDoc

variable {α : Type} {name : String}

-- What comes last for a name in a list of names with something each.
def lastOf (name : String) (entries : List (String × α)) : Option α :=
  (entries.reverse.find? (·.1 = name)).map (·.2)

theorem lastOf_append (name : String) (front back : List (String × α)) :
    lastOf name (front ++ back) = (lastOf name back).or (lastOf name front) := by
  rw [lastOf, List.reverse_append, List.find?_append, Option.map_or]
  rfl

theorem lastOf_cons (name : String) (entry : String × α) (rest : List (String × α)) :
    lastOf name (entry :: rest) =
      (lastOf name rest).or (if entry.1 = name then some entry.2 else none) := by
  rw [← List.singleton_append, lastOf_append]
  by_cases hname : entry.1 = name <;> simp [lastOf, hname]

theorem lastOf_eq_none_iff {entries : List (String × α)} :
    lastOf name entries = none ↔ ∀ entry ∈ entries, entry.1 ≠ name := by
  simp [lastOf]

theorem exists_of_lastOf {entries : List (String × α)} {last : α}
    (h : lastOf name entries = some last) :
    ∃ front back, entries = front ++ (name, last) :: back ∧ ∀ entry ∈ back, entry.1 ≠ name := by
  obtain ⟨⟨other, own⟩, hfind, hlast⟩ := Option.map_eq_some_iff.mp h
  obtain ⟨hname, front, back, hsplit, hfront⟩ := List.find?_eq_some_iff_append.mp hfind
  cases hlast
  cases of_decide_eq_true hname
  refine ⟨back.reverse, front.reverse, ?_, fun entry hentry => ?_⟩
  · rw [← List.reverse_reverse entries, hsplit]
    simp
  · simpa using hfront entry (List.mem_reverse.mp hentry)

-- Entries put into a table one after the other.
def NameTable.putAll (entries : List (String × α)) (table : NameTable α) : NameTable α :=
  entries.foldl (fun table entry => put entry.1 entry.2 table) table

theorem NameTable.find?_putAll (name : String) (entries : List (String × α))
    (table : NameTable α) :
    find? name (putAll entries table) = (lastOf name entries).or (find? name table) := by
  induction entries generalizing table with
  | nil => rfl
  | cons entry rest ih =>
      have hput : find? name (put entry.1 entry.2 table) =
          (if entry.1 = name then some entry.2 else none).or (find? name table) := by
        by_cases hname : entry.1 = name
        · rw [if_pos hname, ← hname, find?_put_self]
          rfl
        · rw [if_neg hname, find?_put_of_ne (Ne.symm hname)]
          rfl
      rw [lastOf_cons, Option.or_assoc, ← hput]
      exact ih (put entry.1 entry.2 table)

namespace NameTable

variable {β : Type} {value : α} {table : NameTable α}

def Ascending (table : NameTable α) : Prop := table.Pairwise (·.1 < ·.1)

theorem name_mem_put {entry : String × α} (h : entry ∈ put name value table) :
    entry.1 = name ∨ entry ∈ table := by
  induction table with
  | nil =>
      cases List.mem_singleton.mp h
      exact .inl rfl
  | cons first rest ih =>
      rw [put] at h
      split at h
      · rcases List.mem_cons.mp h with rfl | h
        · exact .inl rfl
        · exact .inr (List.mem_cons_of_mem _ h)
      · split at h
        · rcases List.mem_cons.mp h with rfl | h
          · exact .inl rfl
          · exact .inr h
        · rcases List.mem_cons.mp h with rfl | h
          · exact .inr (List.mem_cons_self ..)
          · exact (ih h).imp id (List.mem_cons_of_mem _)

theorem Ascending.put (h : table.Ascending) (name : String) (value : α) :
    (put name value table).Ascending := by
  induction table with
  | nil => exact List.pairwise_singleton _ _
  | cons first rest ih =>
      obtain ⟨hfirst, hrest⟩ := List.pairwise_cons.mp h
      rw [NameTable.put]
      split
      · rename_i heq
        subst heq
        exact List.pairwise_cons.mpr ⟨hfirst, hrest⟩
      · split
        · rename_i hlt
          refine List.pairwise_cons.mpr ⟨List.forall_mem_cons.mpr ⟨hlt, ?_⟩, h⟩
          exact fun entry hentry => lt_trans hlt (hfirst entry hentry)
        · rename_i hne hnot
          refine List.pairwise_cons.mpr ⟨fun entry hentry => ?_, ih hrest⟩
          rcases name_mem_put hentry with hname | hold
          · rw [hname]
            exact lt_of_le_of_ne (not_lt.mp hnot) (Ne.symm hne)
          · exact hfirst entry hold

theorem Ascending.find?_eq_some_iff (h : table.Ascending) :
    find? name table = some value ↔ (name, value) ∈ table := by
  induction table with
  | nil => simp [find?]
  | cons first rest ih =>
      obtain ⟨hfirst, hrest⟩ := List.pairwise_cons.mp h
      rw [find?, List.mem_cons]
      split
      · rename_i heq
        subst heq
        have hlater : (first.1, value) ∉ rest := fun hmem =>
          lt_irrefl first.1 (hfirst (first.1, value) hmem)
        simp [hlater, Prod.ext_iff, eq_comm]
      · rename_i hne
        rw [ih hrest]
        simp [Prod.ext_iff, hne]

theorem Ascending.mem_put (h : table.Ascending) {entry : String × α} :
    entry ∈ NameTable.put name value table ↔
      entry = (name, value) ∨ entry.1 ≠ name ∧ entry ∈ table := by
  obtain ⟨own, content⟩ := entry
  rw [← (h.put name value).find?_eq_some_iff, ← h.find?_eq_some_iff]
  by_cases hname : own = name
  · subst hname
    rw [find?_put_self]
    simp [eq_comm]
  · rw [find?_put_of_ne hname]
    simp [hname]

-- A table that has the values of items under their keys, in the order of the items.
structure Gathers (key : α → String) (value : α → β) (items : List α)
    (table : NameTable (List β)) : Prop where
  ascending : table.Ascending
  mem : ∀ name values, (name, values) ∈ table ↔
    values ≠ [] ∧ values = (items.filter (key · = name)).map value

section Gathers

variable {key : α → String} {value : α → β} {items : List α} {table : NameTable (List β)}

theorem gathers_nil (key : α → String) (value : α → β) : Gathers key value [] [] where
  ascending := .nil
  mem name values := by
    simp only [List.not_mem_nil, List.filter_nil, List.map_nil, false_iff, not_and]
    exact fun hne => hne

theorem Gathers.mem_of_mem (h : Gathers key value items table) {item : α} (hitem : item ∈ items) :
    (key item, (items.filter (key · = key item)).map value) ∈ table := by
  refine (h.mem _ _).mpr ⟨mt List.map_eq_nil_iff.mp (List.ne_nil_of_mem (a := item) ?_), rfl⟩
  exact List.mem_filter.mpr ⟨hitem, decide_eq_true rfl⟩

theorem Gathers.find?_getD (h : Gathers key value items table) (name : String) :
    (find? name table).getD [] = (items.filter (key · = name)).map value := by
  cases hfind : find? name table with
  | some values => exact ((h.mem name values).mp (h.ascending.find?_eq_some_iff.mp hfind)).2
  | none =>
      by_contra hne
      have hsome := h.ascending.find?_eq_some_iff.mpr ((h.mem name _).mpr ⟨Ne.symm hne, rfl⟩)
      rw [hfind] at hsome
      cases hsome

theorem Gathers.concat (h : Gathers key value items table) (item : α) :
    Gathers key value (items ++ [item])
      (put (key item) ((find? (key item) table).getD [] ++ [value item]) table) where
  ascending := h.ascending.put _ _
  mem name values := by
    rw [h.ascending.mem_put, h.find?_getD, List.filter_append, List.map_append]
    by_cases hname : key item = name
    · subst hname
      rw [List.filter_cons_of_pos (by simp), List.filter_nil, List.map_singleton]
      constructor
      · rintro (heq | ⟨hne, -⟩)
        · rw [Prod.mk.injEq] at heq
          exact ⟨by simp [heq.2], heq.2⟩
        · exact (hne rfl).elim
      · rintro ⟨-, rfl⟩
        exact .inl rfl
    · simp [h.mem, hname, Ne.symm hname]

theorem Gathers.foldl (h : Gathers key value items table) (more : List α) :
    Gathers key value (items ++ more) (more.foldl (fun table item =>
      put (key item) ((find? (key item) table).getD [] ++ [value item]) table) table) := by
  induction more generalizing items table with
  | nil => rwa [List.append_nil]
  | cons item rest ih =>
      rw [List.foldl_cons, ← List.singleton_append, ← List.append_assoc]
      exact ih (h.concat item)

end Gathers

end NameTable

end LiveDoc
