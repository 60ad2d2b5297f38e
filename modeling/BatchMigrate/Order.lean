/-!
# Lists in order

Migrations and the rows of a version table are kept in the order of their versions. An item is added where it belongs.
-/

namespace BatchMigrate

/-- The list with one more item, in front of the first one whose key is not less. -/
def insertBy {α : Type} (key : α → Int) (a : α) : List α → List α
  | [] => [a]
  | b :: rest => if key a ≤ key b then a :: b :: rest else b :: insertBy key a rest

end BatchMigrate
