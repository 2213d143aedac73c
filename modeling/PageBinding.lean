import PageBinding.Cache.Basic
import PageBinding.Cache.Chosen
import PageBinding.Cache.Directory
import PageBinding.Cache.Memory
import PageBinding.CommandLine.Arguments
import PageBinding.CommandLine.Consulted
import PageBinding.CommandLine.Failure
import PageBinding.CommandLine.Run
import PageBinding.CommandLine.Words
import PageBinding.Decimal.Binary64
import PageBinding.Decimal.Layout
import PageBinding.Decimal.Shortest
import PageBinding.Decimal.Stepwise
import PageBinding.Fetch.Canned
import PageBinding.Fetch.Method
import PageBinding.Fetch.Served
import PageBinding.Fetch.Source
import PageBinding.Files.FileSystem
import PageBinding.Files.Guarded
import PageBinding.Files.Path
import PageBinding.Html.Basic
import PageBinding.Html.Bytes
import PageBinding.Html.NamedCharacter
import PageBinding.Html.Printer
import PageBinding.Html.Reference
import PageBinding.Html.Token
import PageBinding.Html.Tokenizer
import PageBinding.Json.Display
import PageBinding.Json.Notation
import PageBinding.Json.Path
import PageBinding.Json.Printer
import PageBinding.Json.Problem
import PageBinding.Json.Reader
import PageBinding.Json.Value
import PageBinding.Keyed
import PageBinding.Main
import PageBinding.Named
import PageBinding.Notice
import PageBinding.Page.Binding
import PageBinding.Page.Failure
import PageBinding.Page.LivePage
import PageBinding.Page.Runner
import PageBinding.Proofs.Cache.Refinement
import PageBinding.Proofs.Decimal.Fewest
import PageBinding.Proofs.Decimal.Interval
import PageBinding.Proofs.Decimal.Rounding
import PageBinding.Proofs.Decimal.Shortest
import PageBinding.Proofs.Decimal.Stepwise
import PageBinding.Proofs.Fetch.Confinement
import PageBinding.Proofs.Files.Clear
import PageBinding.Proofs.Files.Components
import PageBinding.Proofs.Files.Following
import PageBinding.Proofs.Files.Guarding
import PageBinding.Proofs.Files.Making
import PageBinding.Proofs.Html.Encoding
import PageBinding.Proofs.Html.Escaping
import PageBinding.Proofs.Html.Every
import PageBinding.Proofs.Html.Naming
import PageBinding.Proofs.Html.Normal
import PageBinding.Proofs.Html.Reading
import PageBinding.Proofs.Html.Rereading
import PageBinding.Proofs.Html.Writable
import PageBinding.Proofs.Json.Canonical
import PageBinding.Proofs.Json.Display
import PageBinding.Proofs.Json.Limits
import PageBinding.Proofs.Json.Literal
import PageBinding.Proofs.Json.Notation
import PageBinding.Proofs.Json.Numerals
import PageBinding.Proofs.Json.Paths
import PageBinding.Proofs.Json.Rereading
import PageBinding.Proofs.Json.RoundTrip
import PageBinding.Proofs.Named
import PageBinding.Proofs.Page.Arrangement
import PageBinding.Proofs.Page.Asking
import PageBinding.Proofs.Page.Delegation
import PageBinding.Proofs.Page.Deliveries
import PageBinding.Proofs.Page.Filling
import PageBinding.Proofs.Page.FirstOutput
import PageBinding.Proofs.Page.Keeping
import PageBinding.Proofs.Page.Layout
import PageBinding.Proofs.Page.Operations
import PageBinding.Proofs.Page.Orders
import PageBinding.Proofs.Page.Outcomes
import PageBinding.Proofs.Page.Picture
import PageBinding.Proofs.Page.Places
import PageBinding.Proofs.Page.Rebinding
import PageBinding.Proofs.Page.Rerendering
import PageBinding.Proofs.Page.Running
import PageBinding.Proofs.Page.Saving
import PageBinding.Proofs.Page.Showing
import PageBinding.Proofs.Page.Standing
import PageBinding.Proofs.Page.Steadiness
import PageBinding.Proofs.Page.Tidying
import PageBinding.Proofs.Page.Upkeep
import PageBinding.Proofs.Page.Writing
import PageBinding.Proofs.Results
import PageBinding.Proofs.Template.Binding
import PageBinding.Proofs.Template.Canonical
import PageBinding.Proofs.Template.Collected
import PageBinding.Proofs.Template.Dependence
import PageBinding.Proofs.Template.Finished
import PageBinding.Proofs.Template.Leftover
import PageBinding.Proofs.Template.Meaning
import PageBinding.Proofs.Template.Outermost
import PageBinding.Proofs.Template.Registered
import PageBinding.Proofs.Template.Rereading
import PageBinding.Proofs.Template.Scanning
import PageBinding.Proofs.Template.Search
import PageBinding.Proofs.Template.Unbraced
import PageBinding.Proofs.Template.Untouched
import PageBinding.Proofs.Text.ByteOrder
import PageBinding.Proofs.Text.Encoded
import PageBinding.Proofs.Text.Splitting
import PageBinding.Proofs.Tree.Around
import PageBinding.Proofs.Tree.Building
import PageBinding.Proofs.Tree.Compacting
import PageBinding.Proofs.Tree.Copies
import PageBinding.Proofs.Tree.Copying
import PageBinding.Proofs.Tree.Descending
import PageBinding.Proofs.Tree.Editing
import PageBinding.Proofs.Tree.Elsewhere
import PageBinding.Proofs.Tree.Exchange
import PageBinding.Proofs.Tree.Exchanged
import PageBinding.Proofs.Tree.Extending
import PageBinding.Proofs.Tree.Isomorphism
import PageBinding.Proofs.Tree.Numbered
import PageBinding.Proofs.Tree.OneByOne
import PageBinding.Proofs.Tree.Order
import PageBinding.Proofs.Tree.Planting
import PageBinding.Proofs.Tree.Raising
import PageBinding.Proofs.Tree.Renamed
import PageBinding.Proofs.Tree.Renewed
import PageBinding.Proofs.Tree.Replacing
import PageBinding.Proofs.Tree.Scaffolding
import PageBinding.Proofs.Tree.Showing
import PageBinding.Proofs.Tree.Sparing
import PageBinding.Proofs.Tree.Swapping
import PageBinding.Proofs.Tree.TokenByToken
import PageBinding.Proofs.Tree.Views
import PageBinding.Proofs.Tree.Walking
import PageBinding.Settings
import PageBinding.Template.Collection
import PageBinding.Template.Markers
import PageBinding.Template.Placeholder
import PageBinding.Template.Rendering
import PageBinding.Template.Scan
import PageBinding.Text.Blank
import PageBinding.Text.Quoted
import PageBinding.Text.Split
import PageBinding.Text.Unprintable
import PageBinding.Tree.Basic
import PageBinding.Tree.Compact
import PageBinding.Tree.Copy
import PageBinding.Tree.CopyInPlace
import PageBinding.Tree.Descent
import PageBinding.Tree.Links
import PageBinding.Tree.OfTokens
import PageBinding.Tree.Reading
import PageBinding.Tree.Scaffold
import PageBinding.Tree.Walk
