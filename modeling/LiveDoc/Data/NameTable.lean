namespace LiveDoc

-- A finite map kept in ascending order of its names, each of which occurs once.
abbrev NameTable (α : Type) := List (String × α)

namespace NameTable

variable {α : Type}

def find? (name : String) : NameTable α → Option α
  | [] => none
  | (other, value) :: rest => if name = other then some value else find? name rest

def put (name : String) (value : α) : NameTable α → NameTable α
  | [] => [(name, value)]
  | (other, old) :: rest =>
      if name = other then (name, value) :: rest
      else if name < other then (name, value) :: (other, old) :: rest
      else (other, old) :: put name value rest

def names (table : NameTable α) : List String := table.map (·.1)

@[simp] theorem find?_put_self (name : String) (value : α) (table : NameTable α) :
    find? name (put name value table) = some value := by
  induction table with
  | nil => simp [put, find?]
  | cons entry rest ih => grind [put, find?]

theorem find?_put_of_ne {name other : String} (h : other ≠ name) (value : α)
    (table : NameTable α) : find? other (put name value table) = find? other table := by
  induction table with
  | nil => simp [put, find?, h]
  | cons entry rest ih => grind [put, find?]

end NameTable

end LiveDoc
