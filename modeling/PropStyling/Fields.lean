/-! # Named fields in insertion order

A list of named fields keeps the order in which the names were first inserted.
Inserting under a name that is already there replaces the value where it stands.
Looking up takes the first field of that name, which is `List.lookup`.
-/
namespace PropStyling

abbrev Fields (α : Type) := List (String × α)

namespace Fields
variable {α : Type}

def insert (name : String) (value : α) : Fields α → Fields α
  | [] => [(name, value)]
  | field :: rest =>
    if field.1 = name then (name, value) :: rest else field :: insert name value rest

/-- Inserts each field of `later` in turn. -/
def merge (fields later : Fields α) : Fields α :=
  later.foldl (fun acc field => acc.insert field.1 field.2) fields

def ofList (fields : List (String × α)) : Fields α :=
  merge [] fields

def names (fields : Fields α) : List String :=
  fields.map Prod.fst

theorem lookup_insert (name other : String) (value : α) (fields : Fields α) :
    List.lookup other (fields.insert name value) =
      if other = name then some value else List.lookup other fields := by
  induction fields with
  | nil => grind [insert]
  | cons field rest ih => grind [insert]

theorem names_insert (name : String) (value : α) (fields : Fields α) :
    (fields.insert name value).names =
      if name ∈ fields.names then fields.names else fields.names ++ [name] := by
  induction fields with
  | nil => simp [insert, names]
  | cons field rest ih => grind [insert, names]

end Fields

end PropStyling
