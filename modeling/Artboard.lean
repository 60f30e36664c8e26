import Artboard.Asset.Basic
import Artboard.Color.Basic
import Artboard.Color.Palette
import Artboard.Command.Arguments
import Artboard.Command.Batch
import Artboard.Command.Document
import Artboard.Command.Example
import Artboard.Command.Run
import Artboard.Conversion.Compile
import Artboard.Conversion.Emit
import Artboard.Conversion.Interplay
import Artboard.Conversion.Normalize
import Artboard.Conversion.Plan
import Artboard.Conversion.Preview
import Artboard.Conversion.Print
import Artboard.Conversion.Process
import Artboard.Conversion.Report
import Artboard.Conversion.Session
import Artboard.Conversion.World
import Artboard.Digest.Content
import Artboard.Digest.Fnv
import Artboard.Digest.Sha256
import Artboard.Files.Path
import Artboard.Files.Tree
import Artboard.Geometry.Rect
import Artboard.Geometry.Snap
import Artboard.Json.Basic
import Artboard.Json.Parse
import Artboard.Json.Print
import Artboard.Json.Read
import Artboard.Main
import Artboard.Markup.Element
import Artboard.Markup.Escape
import Artboard.Markup.Reader
import Artboard.Markup.Tree
import Artboard.Node.Basic
import Artboard.Number.Decimal
import Artboard.Number.Exact
import Artboard.Scene.Basic
import Artboard.Scene.LayerTag
import Artboard.Scene.Read
import Artboard.Settings.Basic
import Artboard.Settings.Change
import Artboard.Settings.Document
import Artboard.Style.Layout
import Artboard.Style.Scale
import Artboard.Style.Shape
import Artboard.Style.Typography
import Artboard.Style.Utility
import Artboard.Text.Ascii
import Artboard.Text.Blank
import Artboard.Text.ByteOrder
import Artboard.Text.Lowercase
import Artboard.Text.Utf8
import Artboard.Upload.Address
import Artboard.Upload.Http
import Artboard.Upload.Pipeline
import Artboard.Upload.Request
import Artboard.Upload.Slots
import Artboard.Upload.Traffic
import Artboard.Proofs.Upload.Moves
import Artboard.Proofs.Upload.Order
import Artboard.Proofs.Upload.Capacity
import Artboard.Proofs.Upload.Queue
import Artboard.Proofs.Upload.Contents
import Artboard.Proofs.Conversion.Plans
import Artboard.Proofs.Conversion.Agreement
import Artboard.Proofs.Conversion.Repetition
import Artboard.Proofs.Conversion.Transparency
import Artboard.Proofs.Upload.Growth
import Artboard.Proofs.Conversion.Processes
import Artboard.Proofs.Conversion.Accounts
import Artboard.Proofs.Conversion.Schedules
import Artboard.Proofs.Conversion.Recovery
import Artboard.Proofs.Conversion.Invariants
import Artboard.Proofs.Conversion.Provenance
import Artboard.Proofs.Conversion.Suppression
import Artboard.Proofs.Conversion.Results
import Artboard.Proofs.Conversion.Flattening
import Artboard.Proofs.Conversion.Lockstep
import Artboard.Proofs.Conversion.Emission
import Artboard.Proofs.Conversion.Visits
import Artboard.Proofs.Style.Positions
import Artboard.Proofs.Style.Backgrounds
import Artboard.Proofs.Conversion.Drawings
import Artboard.Proofs.Conversion.Positioning
import Artboard.Proofs.Markup.Depictions
import Artboard.Proofs.Markup.Reading
import Artboard.Proofs.Markup.Comments
import Artboard.Proofs.Markup.Indentation
import Artboard.Proofs.Markup.Nesting
import Artboard.Proofs.Markup.Trees
import Artboard.Proofs.Markup.Surroundings
import Artboard.Proofs.Markup.Expressions
import Artboard.Proofs.Conversion.WellFormed
import Artboard.Proofs.Conversion.Offsets
import Artboard.Proofs.Conversion.Instructions
import Artboard.Proofs.Conversion.Renaming
import Artboard.Proofs.Conversion.Pruning
import Artboard.Proofs.Conversion.Hidden
import Artboard.Proofs.Conversion.Exports
import Artboard.Proofs.Conversion.Mirrors
import Artboard.Proofs.Conversion.Values
import Artboard.Proofs.Conversion.Asking
import Artboard.Proofs.Conversion.Timing
import Artboard.Proofs.Conversion.Reports
import Artboard.Proofs.Conversion.Stateless
import Artboard.Proofs.Conversion.Joining
import Artboard.Proofs.Conversion.Locality
import Artboard.Proofs.Conversion.Stages
import Artboard.Proofs.Conversion.Presentation
import Artboard.Proofs.Conversion.Pictures
import Artboard.Proofs.Conversion.Courses
import Artboard.Proofs.Conversion.Previews
import Artboard.Proofs.Conversion.Backdrops
import Artboard.Proofs.Conversion.Degradations
import Artboard.Proofs.Number.Order
import Artboard.Proofs.Settings.Ranges
import Artboard.Proofs.Style.Colors
import Artboard.Proofs.Style.Segments
import Artboard.Proofs.Conversion.Colors
import Artboard.Proofs.Markup.References
import Artboard.Proofs.Markup.Places
import Artboard.Proofs.Conversion.UserData
import Artboard.Proofs.Markup.Paragraphs
import Artboard.Proofs.Conversion.Texts
import Artboard.Proofs.Upload.Room
import Artboard.Proofs.Conversion.Terminators
import Artboard.Proofs.Number.Finite
import Artboard.Proofs.Json.Paths
import Artboard.Proofs.Json.Entries
import Artboard.Proofs.Json.Schema
import Artboard.Proofs.Json.Numbers
import Artboard.Proofs.Settings.Slots
import Artboard.Proofs.Settings.Loading
import Artboard.Proofs.Settings.Refusals
import Artboard.Proofs.Conversion.FirstTexts
import Artboard.Proofs.Conversion.Live
import Artboard.Proofs.Files.Writing
import Artboard.Proofs.Command.Outputs
import Artboard.Proofs.Command.Batches
import Artboard.Proofs.Style.Equality
import Artboard.Proofs.Conversion.Rebasing
import Artboard.Proofs.Number.Numerals
import Artboard.Proofs.Style.Tokens
import Artboard.Proofs.Conversion.Wrappers
import Artboard.Proofs.Style.Unbroken
import Artboard.Proofs.Markup.ClassAttributes
import Artboard.Proofs.Conversion.ClassLists
import Artboard.Proofs.Text.Trimming
import Artboard.Proofs.Geometry.Snapping
import Artboard.Proofs.Number.Bits
import Artboard.Proofs.Style.Paddings
import Artboard.Proofs.Written.Hexadecimal
import Artboard.Proofs.Written.LayerNames
import Artboard.Proofs.Color.Nearest
import Artboard.Proofs.Digest.Rounds
import Artboard.Proofs.Number.Decimals
