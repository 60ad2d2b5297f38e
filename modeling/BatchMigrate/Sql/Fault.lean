import BatchMigrate.Text.Decimal

/-!
# Faults of the database

Why the database refuses a statement. Faults that concern one token report the text that was being read and the place
of the token in it.
-/

namespace BatchMigrate.Sql

/-- Text that was being read, and the number of bytes before the token that a fault is about. -/
structure Place where
  sql : Text
  offset : Nat
  deriving DecidableEq, Repr

/-- Why the database refuses a statement. -/
inductive Fault
  /-- The token does not fit. -/
  | unexpected (token : Text) (place : Place)
  /-- The text begins no token. -/
  | unrecognized (token : Text) (place : Place)
  /-- The text ends inside a statement. -/
  | incomplete
  /-- The name of a new table is taken. -/
  | tableExists (table : Text) (place : Place)
  /-- The name of a new table is reserved for the database itself. -/
  | reservedName (table : Text)
  /-- There is no such option of a table. -/
  | unknownOption (option : Text)
  /-- There is no such table. -/
  | noSuchTable (table : Text)
  /-- A query asks for a column that the table does not have. -/
  | noSuchColumn (column : Text) (place : Place)
  /-- A row names a column that the table does not have. -/
  | noColumnNamed (table column : Text)
  /-- A row has another number of values than the table has columns. -/
  | valueCount (table : Text) (columns values : Nat)
  /-- A version is no integer of 64 bits. -/
  | mismatch
  /-- A column of the table already holds the value. -/
  | notUnique (table column : Text)
  /-- A transaction is begun inside a transaction. -/
  | nestedTransaction
  /-- A transaction is committed and there is none. -/
  | noTransaction
  /-- The file that should hold the database holds something else. -/
  | notADatabase
  deriving DecidableEq, Repr

/-- The place in words. -/
def Place.message (p : Place) : String := " in " ++ p.sql.str ++ " at offset " ++ (Text.ofNat p.offset).str

/-- The fault in words. -/
def Fault.message : Fault → String
  | unexpected token place => "near \"" ++ token.str ++ "\": syntax error" ++ place.message
  | unrecognized token place => "unrecognized token: \"" ++ token.str ++ "\"" ++ place.message
  | incomplete => "incomplete input"
  | tableExists table place => "table " ++ table.str ++ " already exists" ++ place.message
  | reservedName table => "object name reserved for internal use: " ++ table.str
  | unknownOption option => "unknown table option: " ++ option.str
  | noSuchTable table => "no such table: " ++ table.str
  | noSuchColumn column place => "no such column: " ++ column.str ++ place.message
  | noColumnNamed table column => "table " ++ table.str ++ " has no column named " ++ column.str
  | valueCount table columns values =>
    "table " ++ table.str ++ " has " ++ (Text.ofNat columns).str ++ " columns but " ++ (Text.ofNat values).str ++
      " values were supplied"
  | mismatch => "datatype mismatch"
  | notUnique table column => "UNIQUE constraint failed: " ++ table.str ++ "." ++ column.str
  | nestedTransaction => "cannot start a transaction within a transaction"
  | noTransaction => "cannot commit - no transaction is active"
  | notADatabase => "file is not a database"

end BatchMigrate.Sql
