/-! Sequences ordered by name. Names are compared by code point, and of items with one name
only the last is kept. -/
namespace CategoryStatements

/-- Inserts an item at the place of its name, instead of one that has the name already. -/
def insertNamed (name : α → String) (item : α) : List α → List α
  | [] => [item]
  | first :: rest =>
    if name item < name first then item :: first :: rest
    else if name item = name first then item :: rest
    else first :: insertNamed name item rest

/-- The items in order of name, of equal names the last. -/
def orderedByName (name : α → String) (items : List α) : List α :=
  items.foldl (fun ordered item => insertNamed name item ordered) []

/-- The distinct names in order. -/
def distinctNames (names : List String) : List String := orderedByName id names

end CategoryStatements
