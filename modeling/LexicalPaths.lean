import LexicalPaths.Archive.Directory
import LexicalPaths.Archive.Ending
import LexicalPaths.Archive.Fault
import LexicalPaths.Archive.Number
import LexicalPaths.Archive.Writer
import LexicalPaths.Command.Help
import LexicalPaths.Command.Reach
import LexicalPaths.Command.Reading
import LexicalPaths.Command.Request
import LexicalPaths.Command.Run
import LexicalPaths.Command.Usage
import LexicalPaths.Command.Verb
import LexicalPaths.Command.Word
import LexicalPaths.Config.Basic
import LexicalPaths.Config.Location
import LexicalPaths.Config.Storage
import LexicalPaths.Datum.AsPath
import LexicalPaths.Datum.Basic
import LexicalPaths.Datum.Moment
import LexicalPaths.Decimal.Binary64
import LexicalPaths.Decimal.Shortest
import LexicalPaths.Display.Event
import LexicalPaths.Display.PathText
import LexicalPaths.Display.Report
import LexicalPaths.Display.Styled
import LexicalPaths.Display.Terminal
import LexicalPaths.Host.Access
import LexicalPaths.Host.Basic
import LexicalPaths.Host.Failure
import LexicalPaths.Host.Files
import LexicalPaths.Host.HostPath
import LexicalPaths.Host.Links
import LexicalPaths.Host.Locate
import LexicalPaths.Host.Machine
import LexicalPaths.Json.Error
import LexicalPaths.Json.Printer
import LexicalPaths.Json.Reader
import LexicalPaths.Log.Record
import LexicalPaths.Log.Rotation
import LexicalPaths.Log.Setup
import LexicalPaths.Main
import LexicalPaths.Manifest.Basic
import LexicalPaths.Manifest.Document
import LexicalPaths.Manifest.Error
import LexicalPaths.Manifest.Folder
import LexicalPaths.Manifest.Record
import LexicalPaths.Path.Basic
import LexicalPaths.Path.Navigation
import LexicalPaths.Path.Normalize
import LexicalPaths.Path.Order
import LexicalPaths.Path.Relativize
import LexicalPaths.Path.Resolve
import LexicalPaths.Path.Root
import LexicalPaths.Path.Separator
import LexicalPaths.Proofs.Command.Apart
import LexicalPaths.Proofs.Command.Atomic
import LexicalPaths.Proofs.Command.Escape
import LexicalPaths.Proofs.Command.Given
import LexicalPaths.Proofs.Command.Keeping
import LexicalPaths.Proofs.Command.Logged
import LexicalPaths.Proofs.Command.Record
import LexicalPaths.Proofs.Command.SetUp
import LexicalPaths.Proofs.Command.SetUpFailure
import LexicalPaths.Proofs.Config.Document
import LexicalPaths.Proofs.Config.Location
import LexicalPaths.Proofs.Config.Reload
import LexicalPaths.Proofs.Display.PathText
import LexicalPaths.Proofs.Host.Access
import LexicalPaths.Proofs.Host.Action
import LexicalPaths.Proofs.Host.Extension
import LexicalPaths.Proofs.Host.Files
import LexicalPaths.Proofs.Host.Growth
import LexicalPaths.Proofs.Host.HostPath
import LexicalPaths.Proofs.Host.Keeping
import LexicalPaths.Proofs.Host.Links
import LexicalPaths.Proofs.Host.Orderly
import LexicalPaths.Proofs.Host.Printing
import LexicalPaths.Proofs.Host.Sparing
import LexicalPaths.Proofs.Json.Grammar
import LexicalPaths.Proofs.Json.Keys
import LexicalPaths.Proofs.Json.Lines
import LexicalPaths.Proofs.Json.Nesting
import LexicalPaths.Proofs.Json.RoundTrip
import LexicalPaths.Proofs.Json.Spelled
import LexicalPaths.Proofs.Manifest.Accepted
import LexicalPaths.Proofs.Manifest.Document
import LexicalPaths.Proofs.Manifest.Folder
import LexicalPaths.Proofs.Manifest.History
import LexicalPaths.Proofs.Manifest.Location
import LexicalPaths.Proofs.Manifest.Moved
import LexicalPaths.Proofs.Manifest.Reload
import LexicalPaths.Proofs.Manifest.Reported
import LexicalPaths.Proofs.Manifest.RoundTrip
import LexicalPaths.Proofs.Manifest.Settled
import LexicalPaths.Proofs.Path.Across
import LexicalPaths.Proofs.Path.Appending
import LexicalPaths.Proofs.Path.Ascent
import LexicalPaths.Proofs.Path.Below
import LexicalPaths.Proofs.Path.Checked
import LexicalPaths.Proofs.Path.Composition
import LexicalPaths.Proofs.Path.Convention
import LexicalPaths.Proofs.Path.Early
import LexicalPaths.Proofs.Path.Faultless
import LexicalPaths.Proofs.Path.LastName
import LexicalPaths.Proofs.Path.Location
import LexicalPaths.Proofs.Path.Names
import LexicalPaths.Proofs.Path.NormalForm
import LexicalPaths.Proofs.Path.Order
import LexicalPaths.Proofs.Path.Parts
import LexicalPaths.Proofs.Path.Ranges
import LexicalPaths.Proofs.Path.Reachable
import LexicalPaths.Proofs.Path.Rereading
import LexicalPaths.Proofs.Path.Root
import LexicalPaths.Proofs.Path.Separator
import LexicalPaths.Proofs.Path.Split
import LexicalPaths.Proofs.Path.Style
import LexicalPaths.Proofs.Path.Trip
import LexicalPaths.Proofs.Path.View
import LexicalPaths.Proofs.Path.Walk
import LexicalPaths.Proofs.Path.Way
import LexicalPaths.Proofs.Path.Window
import LexicalPaths.Proofs.Provider.Archive
import LexicalPaths.Proofs.Provider.Registry
import LexicalPaths.Proofs.Text.Basic
import LexicalPaths.Proofs.Text.UpperCase
import LexicalPaths.Proofs.Text.Utf8
import LexicalPaths.Proofs.Toml.Lines
import LexicalPaths.Proofs.Toml.Number
import LexicalPaths.Proofs.Toml.Quoted
import LexicalPaths.Proofs.Uri.Percent
import LexicalPaths.Proofs.Uri.Split
import LexicalPaths.Provider.Basic
import LexicalPaths.Provider.Open
import LexicalPaths.Text.Basic
import LexicalPaths.Text.Blank
import LexicalPaths.Text.DecimalDigit
import LexicalPaths.Text.Digits
import LexicalPaths.Text.Printable
import LexicalPaths.Text.Printable.Table
import LexicalPaths.Text.Quoted
import LexicalPaths.Text.UpperCase
import LexicalPaths.Text.UpperCase.Table
import LexicalPaths.Text.Utf8
import LexicalPaths.Toml.Clock
import LexicalPaths.Toml.Document
import LexicalPaths.Toml.Error
import LexicalPaths.Toml.Key
import LexicalPaths.Toml.Number
import LexicalPaths.Toml.Value
import LexicalPaths.Uri.Address
import LexicalPaths.Uri.Percent
import LexicalPaths.Uri.Split
