import LiveDoc.Data.NameTable
import LiveDoc.Toml.Table

namespace LiveDoc.Toml

-- The values of a record's fields, in the order of their names. A table may hold no other
-- names; a list gives the first fields and may leave out the last ones.
def fields? (names : List String) : Value → Option (List (Option Value))
  | .table _ entries =>
      if entries.all fun entry => names.contains entry.1 then
        some (names.map fun name => find? name entries)
      else none
  | .list items => some ((List.range names.length).map fun i => items[i]?)
  | .tables items => some ((List.range names.length).map fun i => items[i]?)
  | _ => none

def Value.text? : Value → Option String
  | .text value => some value
  | _ => none

def Value.natural? : Value → Option Nat
  | .integer value => if 0 ≤ value then some value.toNat else none
  | _ => none

def Value.texts? : Value → Option (List String)
  | .list items => items.mapM Value.text?
  | _ => none

-- A table of texts, in the order of its names.
def Value.textTable? : Value → Option (NameTable String)
  | .table _ entries => entries.foldlM (fun table (name, value) =>
      value.text?.map fun text => NameTable.put name text table) []
  | _ => none

-- A field that is missing has its default. One of the wrong kind is refused.
def orDefault {α : Type} (default : α) (decode : Value → Option α) : Option Value → Option α
  | none => some default
  | some value => decode value

def optional {α : Type} (decode : Value → Option α) (field : Option Value) : Option (Option α) :=
  orDefault none (fun value => (decode value).map some) field

end LiveDoc.Toml
