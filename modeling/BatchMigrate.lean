import BatchMigrate.Main
import BatchMigrate.Script.ByteScan
import BatchMigrate.Script.Run
import BatchMigrate.Proofs.Script.Scan
import BatchMigrate.Proofs.Script.Segments
import BatchMigrate.Proofs.Script.Lossless
import BatchMigrate.Proofs.Script.WholeText
import BatchMigrate.Proofs.Script.Restart
import BatchMigrate.Proofs.Files.Tree
import BatchMigrate.Proofs.Migration.Load
import BatchMigrate.Proofs.Sql.Interpreter
import BatchMigrate.Proofs.Runner.Transaction
import BatchMigrate.Proofs.Runner.Atomic
import BatchMigrate.Proofs.Text.Utf8
import BatchMigrate.Proofs.Script.Lines
import BatchMigrate.Proofs.Script.Reprint
import BatchMigrate.Proofs.Runner.Rows
import BatchMigrate.Proofs.Runner.Stages
import BatchMigrate.Proofs.Runner.History
import BatchMigrate.Proofs.Script.InStep
import BatchMigrate.Proofs.Script.Readings
import BatchMigrate.Proofs.Script.Rescan
import BatchMigrate.Proofs.Runner.Failure
import BatchMigrate.Proofs.Migration.Outcome
import BatchMigrate.Proofs.Runner.Status
import BatchMigrate.Proofs.Sql.Alike
import BatchMigrate.Proofs.Sql.Readable
import BatchMigrate.Proofs.Sql.Comments
import BatchMigrate.Proofs.Script.Stripped
import BatchMigrate.Proofs.Sql.Blank
import BatchMigrate.Proofs.Runner.Stripping
import BatchMigrate.Proofs.Yaml.Plain
import BatchMigrate.Proofs.Yaml.Literal
import BatchMigrate.Proofs.Yaml.Quoted
import BatchMigrate.Proofs.Yaml.Scalars
import BatchMigrate.Proofs.Yaml.Values
import BatchMigrate.Proofs.Files.Write
import BatchMigrate.Proofs.Config.RoundTrip
import BatchMigrate.Proofs.Script.Stream
import BatchMigrate.Proofs.Files.Walk
import BatchMigrate.Proofs.Migration.Discovery
import BatchMigrate.Proofs.Text.Trim
import BatchMigrate.Proofs.Runner.Prefixes
import BatchMigrate.Proofs.Config.Reload
import BatchMigrate.Proofs.Script.Terminated
import BatchMigrate.Proofs.Script.Calls
import BatchMigrate.Proofs.Script.Keyword
import BatchMigrate.Proofs.Sql.Name
import BatchMigrate.Proofs.Runner.Connect
import BatchMigrate.Proofs.Text.Fold
import BatchMigrate.Proofs.Script.Recognition
import BatchMigrate.Proofs.Script.SeparatorLine
import BatchMigrate.Proofs.Script.Cursor
import BatchMigrate.Proofs.Script.Joint
import BatchMigrate.Proofs.Cli.DirectiveLines
import BatchMigrate.Proofs.Script.OpenComment
import BatchMigrate.Proofs.Script.LookAhead
import BatchMigrate.Proofs.Runner.Execution
import BatchMigrate.Proofs.Runner.Repeat
import BatchMigrate.Proofs.Script.Returns
import BatchMigrate.Proofs.Migration.Folders
import BatchMigrate.Proofs.Migration.Narrowing
import BatchMigrate.Proofs.Migration.Tags
import BatchMigrate.Proofs.Runner.LastSeparator
import BatchMigrate.Proofs.Script.ByteScan
import BatchMigrate.Proofs.Config.Overlay
