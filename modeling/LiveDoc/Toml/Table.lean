namespace LiveDoc.Toml

-- How a table came to be, which decides what may still be added to it. One that is implied
-- stands on the way to another table; a dotted one was named by a key with dots.
inductive Origin where
  | header
  | implied
  | dotted
  | inline
  deriving DecidableEq, Repr

-- Truth values, fractions and dates are no values here: no setting is one.
inductive Value where
  | text (value : String)
  | integer (value : Int)
  | list (items : List Value)
  | tables (items : List Value)
  | table (origin : Origin) (entries : List (String × Value))
  deriving Repr

abbrev Entries := List (String × Value)

def find? (name : String) : Entries → Option Value
  | [] => none
  | (other, value) :: rest => if name = other then some value else find? name rest

-- Replaces the value of a name, or adds it at the end.
def put (name : String) (value : Value) : Entries → Entries
  | [] => [(name, value)]
  | (other, old) :: rest =>
      if name = other then (name, value) :: rest else (other, old) :: put name value rest

-- A change of a table's entries, for which its origin matters. It may be refused.
abbrev Change := Origin → Entries → Option (Origin × Entries)

-- Changes the table that a path names. Tables that are missing are made on the way; of several
-- tables under one header the last one counts. A key with dots leaves tables alone that have a
-- header of their own.
def changeAt (dotted : Bool) (change : Change) : List String → Change
  | [] => change
  | name :: path => fun origin entries => do
      let store (value : Value) : Origin × Entries := (origin, put name value entries)
      match find? name entries with
      | none =>
          let (own, inner) ← changeAt dotted change path (if dotted then .dotted else .implied) []
          return store (.table own inner)
      | some (.table own inner) =>
          if own = .inline ∨ (dotted ∧ own = .header) then none
          else
            let (own, inner) ← changeAt dotted change path own inner
            return store (.table own inner)
      | some (.tables items) =>
          match items.reverse with
          | .table own inner :: before =>
              let (own, inner) ← changeAt dotted change path own inner
              return store (.tables (before.reverse ++ [.table own inner]))
          | _ => none
      | some _ => none

-- Adds a value under a key, which may have dots. No value is set twice, and dots do not mix with
-- the other ways to fill a table.
def insert (path : List String) (name : String) (value : Value) : Change :=
  let add : Change := fun origin entries =>
    if (origin = .dotted) ≠ (path ≠ []) then none
    else match find? name entries with
      | none => some (origin, entries ++ [(name, value)])
      | some _ => none
  changeAt true add path

-- Opens the table of a header. A table has one header at most.
def openTable (path : List String) (name : String) : Change :=
  let start : Change := fun origin entries =>
    match find? name entries with
    | none => some (origin, entries ++ [(name, .table .header [])])
    | some (.table .implied inner) => some (origin, put name (.table .header inner) entries)
    | some _ => none
  changeAt false start path

-- Opens one more of the tables under a double header.
def openItem (path : List String) (name : String) : Change :=
  let start : Change := fun origin entries =>
    match find? name entries with
    | none => some (origin, entries ++ [(name, .tables [.table .header []])])
    | some (.tables items) =>
        some (origin, put name (.tables (items ++ [.table .header []])) entries)
    | some _ => none
  changeAt false start path

end LiveDoc.Toml
