import BatchMigrate.Text.Basic

/-!
# YAML nodes

What a document holds: scalars, sequences and mappings. For a scalar it matters whether it was written plainly, since
only a plain scalar can stand for null or for a truth value.
-/

namespace BatchMigrate.Yaml

/-- A node of a document. -/
inductive Node
  | scalar (isPlain : Bool) (text : Text)
  | seq (items : List Node)
  | map (entries : List (Text × Node))

/-- What stands where nothing is written. -/
def Node.empty : Node := .scalar true []

/-- A place in a document, outside all scalars. -/
inductive Place
  /-- Further on in a line; something other than a blank or a comment follows. -/
  | inline (rest : Text)
  /-- In a new line, after `column` characters; at the end of the document nothing follows. -/
  | fresh (column : Nat) (rest : Text)

end BatchMigrate.Yaml
