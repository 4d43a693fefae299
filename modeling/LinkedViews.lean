import LinkedViews.Command.Arguments
import LinkedViews.Command.Execute
import LinkedViews.Command.Failure
import LinkedViews.Command.Map
import LinkedViews.Command.Replay
import LinkedViews.Command.Script
import LinkedViews.Files
import LinkedViews.Json.Basic
import LinkedViews.Json.Read
import LinkedViews.Json.Scan
import LinkedViews.Json.Typed
import LinkedViews.Json.Write
import LinkedViews.Keyed
import LinkedViews.Main
import LinkedViews.Number.Binary64
import LinkedViews.Number.Shortest
import LinkedViews.Product.Basic
import LinkedViews.Product.Naming
import LinkedViews.Product.RangeIndex
import LinkedViews.Product.RangePair
import LinkedViews.Product.Suppression
import LinkedViews.Session.Basic
import LinkedViews.Session.Config
import LinkedViews.Session.EventLoop
import LinkedViews.Session.Job
import LinkedViews.Store.Basic
import LinkedViews.Store.ChangeFeed
import LinkedViews.Store.Documents
import LinkedViews.Text.Blank
import LinkedViews.Text.Decimal
import LinkedViews.Text.Hex
import LinkedViews.Text.Order
import LinkedViews.Text.Printable
import LinkedViews.Text.Quoted
import LinkedViews.Text.Utf8
import LinkedViews.Toml.Read
import LinkedViews.Toml.Scalar
import LinkedViews.Toml.Value
import LinkedViews.Uri.Basic
import LinkedViews.Uri.Domain
import LinkedViews.Uri.Escape
import LinkedViews.Uri.Host
import LinkedViews.Uri.Parse
import LinkedViews.Uri.Path
import LinkedViews.Uri.Punycode
import LinkedViews.View.Echoes
import LinkedViews.View.Editor
import LinkedViews.View.Synchronizer
import LinkedViews.Wire.Channel
import LinkedViews.Wire.Envelope
import LinkedViews.Wire.Frame
import LinkedViews.Wire.Message
import LinkedViews.Wire.Publication
import LinkedViews.Proofs.History
import LinkedViews.Proofs.Text.Pieces
import LinkedViews.Proofs.Uri.Path
import LinkedViews.Proofs.Store.Operations
import LinkedViews.Proofs.Store.History
import LinkedViews.Proofs.Store.Consistency
import LinkedViews.Proofs.Session.Moment
import LinkedViews.Proofs.Session.Run
import LinkedViews.Proofs.Session.Snapshot
import LinkedViews.Proofs.Session.Opening
import LinkedViews.Proofs.Session.Echo
import LinkedViews.Proofs.Session.Record
import LinkedViews.Proofs.Session.Similar
import LinkedViews.Proofs.Session.Concurrent
import LinkedViews.Proofs.Session.Confluence
import LinkedViews.Proofs.Session.Jobs
import LinkedViews.Proofs.Session.Schedule
import LinkedViews.Proofs.Session.Lockstep
import LinkedViews.Proofs.Command.Runs
import LinkedViews.Proofs.Uri.Normal
import LinkedViews.Proofs.Product.Naming
import LinkedViews.Proofs.Uri.Authority
import LinkedViews.Proofs.Store.Identity
import LinkedViews.Proofs.Text.Ascii
import LinkedViews.Proofs.Wire.Line
import LinkedViews.Proofs.Wire.Grammar
import LinkedViews.Proofs.Wire.Frame
import LinkedViews.Proofs.Wire.LongLine
import LinkedViews.Proofs.Command.Replay
import LinkedViews.Proofs.Text.Utf8
import LinkedViews.Proofs.Json.Text
import LinkedViews.Proofs.Json.Number
import LinkedViews.Proofs.Json.RoundTrip
import LinkedViews.Proofs.Product.Ordered
import LinkedViews.Proofs.Wire.RoundTrip
import LinkedViews.Proofs.Session.Notification
import LinkedViews.Proofs.Session.Accounts
import LinkedViews.Proofs.Session.Rest
import LinkedViews.Proofs.Store.Answers
import LinkedViews.Proofs.Session.ReadOnly
import LinkedViews.Proofs.Session.Display
import LinkedViews.Proofs.Session.Overtaking
import LinkedViews.Proofs.Product.Governing
import LinkedViews.Proofs.Uri.Scheme
import LinkedViews.Proofs.Uri.Slashes
import LinkedViews.Proofs.Product.Recognition
import LinkedViews.Proofs.Product.Shape
import LinkedViews.Proofs.Text.Order
import LinkedViews.Proofs.Uri.Text
import LinkedViews.Proofs.Store.Arming
import LinkedViews.Proofs.Store.Linked
import LinkedViews.Proofs.View.Arming
import LinkedViews.Proofs.View.FanOut
import LinkedViews.Proofs.View.ManualSync
import LinkedViews.Proofs.Product.Selections
import LinkedViews.Proofs.Wire.Progress
import LinkedViews.Proofs.Json.Depth
import LinkedViews.Proofs.Json.Grammar
import LinkedViews.Proofs.Json.Lexeme
import LinkedViews.Proofs.Json.Extent
import LinkedViews.Proofs.Json.Passing
import LinkedViews.Proofs.Json.Written
import LinkedViews.Proofs.Wire.Envelope
import LinkedViews.Proofs.Wire.Identified
import LinkedViews.Proofs.Store.Order
import LinkedViews.Proofs.Text.Lines
import LinkedViews.Proofs.Command.Script
import LinkedViews.Proofs.Wire.Payload
import LinkedViews.Proofs.Command.Map
import LinkedViews.Proofs.Session.Growth
import LinkedViews.Proofs.Store.Feed
import LinkedViews.Proofs.Command.Transcript
import LinkedViews.Proofs.View.Editor
import LinkedViews.Proofs.View.Echoes
