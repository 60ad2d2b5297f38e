import BatchMigrate.Script.Split

/-!
# The plan of a script

What a script sends to the database: its batches in order, each with its number among all batches and with the number
of times that it runs. A batch runs as often as the directive after it says, and once if none follows. A batch that
holds nothing but white space is counted but never sent.
-/

namespace BatchMigrate

/-- A batch and how often it runs. -/
structure PlannedBatch where
  /-- The number of the batch in its script, from one on. -/
  number : Nat
  sql : Text
  times : Nat
  deriving DecidableEq, Repr

namespace PlannedBatch

/-- The plan of the events that follow the first `n` batches. -/
def ofEventsFrom (n : Nat) : List Event → List PlannedBatch
  | [] => []
  | .directive _ :: rest => ofEventsFrom n rest
  | .batch sql :: .directive d :: rest => ⟨n + 1, sql, d.repeatCount⟩ :: ofEventsFrom (n + 1) rest
  | .batch sql :: rest => ⟨n + 1, sql, 1⟩ :: ofEventsFrom (n + 1) rest

/-- The plan of a script. -/
def ofEvents (events : List Event) : List PlannedBatch := ofEventsFrom 0 events

/-- How often the batch is sent to the database. -/
def sends (b : PlannedBatch) : Nat := if b.sql.isBlank then 0 else b.times

end PlannedBatch

end BatchMigrate
