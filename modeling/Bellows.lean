import Bellows.Axis.Basic
import Bellows.Axis.Resampling
import Bellows.Binary64.Basic
import Bellows.Binary64.Decimal
import Bellows.Binary64.Rounding
import Bellows.Binary64.Text
import Bellows.Command.Basic
import Bellows.Command.Merge
import Bellows.Command.Resolution
import Bellows.CommandLine.Arguments
import Bellows.CommandLine.ConvertJob
import Bellows.CommandLine.ExportJob
import Bellows.CommandLine.Folder
import Bellows.CommandLine.Host
import Bellows.CommandLine.Inspecting
import Bellows.CommandLine.Invocation
import Bellows.CommandLine.Manual
import Bellows.CommandLine.Notice
import Bellows.CommandLine.Path
import Bellows.CommandLine.Report
import Bellows.CommandLine.Run
import Bellows.Conversion
import Bellows.Encoding.Detection
import Bellows.Encoding.SingleOctet
import Bellows.Encoding.Unicode
import Bellows.Event.Basic
import Bellows.Event.Layout
import Bellows.Event.Pace
import Bellows.Json.Printer
import Bellows.Json.Reader
import Bellows.Keyed
import Bellows.Main
import Bellows.Proofs.Attempts
import Bellows.Proofs.Axis.Displacement
import Bellows.Proofs.Axis.Early
import Bellows.Proofs.Axis.Gaps
import Bellows.Proofs.Axis.Heads
import Bellows.Proofs.Axis.Kept
import Bellows.Proofs.Axis.Landing
import Bellows.Proofs.Axis.Resampling
import Bellows.Proofs.Axis.Runs
import Bellows.Proofs.Axis.SampleAndHold
import Bellows.Proofs.Axis.Sharing
import Bellows.Proofs.Axis.Ties
import Bellows.Proofs.Binary64.Difference
import Bellows.Proofs.Binary64.Error
import Bellows.Proofs.Binary64.HalfUp
import Bellows.Proofs.Binary64.Interval
import Bellows.Proofs.Binary64.Monotone
import Bellows.Proofs.Binary64.Nearest
import Bellows.Proofs.Binary64.Numeral
import Bellows.Proofs.Binary64.Overflow
import Bellows.Proofs.Binary64.Shortest
import Bellows.Proofs.Command.Loudness
import Bellows.Proofs.Command.Mask
import Bellows.Proofs.Command.Matching
import Bellows.Proofs.Command.Merge
import Bellows.Proofs.Command.Rebarring
import Bellows.Proofs.Command.Renumbering
import Bellows.Proofs.Command.Report
import Bellows.Proofs.Command.Requests
import Bellows.Proofs.Command.Safety
import Bellows.Proofs.Command.Settling
import Bellows.Proofs.Command.Voices
import Bellows.Proofs.CommandLine.Converting
import Bellows.Proofs.CommandLine.Endings
import Bellows.Proofs.CommandLine.Exporting
import Bellows.Proofs.CommandLine.Folder
import Bellows.Proofs.CommandLine.Paths
import Bellows.Proofs.CommandLine.Runs
import Bellows.Proofs.CommandLine.Writing
import Bellows.Proofs.Conversion.AllOrNothing
import Bellows.Proofs.Conversion.Attempted
import Bellows.Proofs.Conversion.Causality
import Bellows.Proofs.Conversion.ConflictReport
import Bellows.Proofs.Conversion.Correspondence
import Bellows.Proofs.Conversion.Endless
import Bellows.Proofs.Conversion.Export
import Bellows.Proofs.Conversion.FullStop
import Bellows.Proofs.Conversion.HiddenConflict
import Bellows.Proofs.Conversion.Loudness
import Bellows.Proofs.Conversion.Outcome
import Bellows.Proofs.Conversion.PumpSafety
import Bellows.Proofs.Conversion.Rebarring
import Bellows.Proofs.Conversion.Renumbering
import Bellows.Proofs.Conversion.Reordering
import Bellows.Proofs.Conversion.SharedAxis
import Bellows.Proofs.Conversion.Subdivision
import Bellows.Proofs.Conversion.Survey
import Bellows.Proofs.Conversion.TimeAxis
import Bellows.Proofs.Conversion.WellFormed
import Bellows.Proofs.Encoding.Detection
import Bellows.Proofs.Encoding.Unicode
import Bellows.Proofs.Event.Beginning
import Bellows.Proofs.Event.Counting
import Bellows.Proofs.Event.Emission
import Bellows.Proofs.Event.Extent
import Bellows.Proofs.Event.Filling
import Bellows.Proofs.Event.Loudness
import Bellows.Proofs.Event.Pinned
import Bellows.Proofs.Event.Plan
import Bellows.Proofs.Event.Provenance
import Bellows.Proofs.Event.Rounding
import Bellows.Proofs.Event.Separation
import Bellows.Proofs.Event.Subdivision
import Bellows.Proofs.Event.Timing
import Bellows.Proofs.Json.Faults
import Bellows.Proofs.Json.Number
import Bellows.Proofs.Json.RoundTrip
import Bellows.Proofs.Json.Text
import Bellows.Proofs.Keyed
import Bellows.Proofs.Places
import Bellows.Proofs.Role.Acceptance
import Bellows.Proofs.Role.Assignments
import Bellows.Proofs.Role.Building
import Bellows.Proofs.Role.Grouping
import Bellows.Proofs.Role.Listing
import Bellows.Proofs.Role.Loudness
import Bellows.Proofs.Role.Matching
import Bellows.Proofs.Role.Playable
import Bellows.Proofs.Role.Renumbering
import Bellows.Proofs.Role.Reordering
import Bellows.Proofs.Role.Restriction
import Bellows.Proofs.Role.Timelines
import Bellows.Proofs.Schedule.Decoding
import Bellows.Proofs.Schedule.Faults
import Bellows.Proofs.Schedule.Infinite
import Bellows.Proofs.Schedule.RoundTrip
import Bellows.Proofs.Schedule.Rows
import Bellows.Proofs.Schedule.Soundness
import Bellows.Proofs.Schedule.Understood
import Bellows.Proofs.Score.Acceptance
import Bellows.Proofs.Score.Building
import Bellows.Proofs.Score.Faults
import Bellows.Proofs.Score.Loudness
import Bellows.Proofs.Score.Parts
import Bellows.Proofs.Score.Reading
import Bellows.Proofs.Score.Splitting
import Bellows.Proofs.Score.Threading
import Bellows.Proofs.SideBySide
import Bellows.Proofs.Text.Digits
import Bellows.Proofs.Text.Words
import Bellows.Proofs.UpToOrder
import Bellows.Proofs.Value.Quantity
import Bellows.Proofs.Xml.Splitting
import Bellows.Proofs.Xml.Stripping
import Bellows.Role.Curve
import Bellows.Role.ParameterFile
import Bellows.Role.Parameters
import Bellows.Role.Settings
import Bellows.Role.Timeline
import Bellows.Schedule.Basic
import Bellows.Schedule.Document
import Bellows.Schedule.Packet
import Bellows.Schedule.Rows
import Bellows.Score.Basic
import Bellows.Score.Reading
import Bellows.Text.Classes
import Bellows.Text.Control
import Bellows.Text.Numeral
import Bellows.Text.Printable
import Bellows.Text.Quoted
import Bellows.Value.Basic
import Bellows.Value.Quantity
import Bellows.Value.Text
import Bellows.Value.Timestamp
import Bellows.Xml.Declarations
import Bellows.Xml.Doctype
import Bellows.Xml.Document
import Bellows.Xml.Element
import Bellows.Xml.Markup
import Bellows.Xml.Name
import Bellows.Xml.Namespace
import Bellows.Xml.Strip
import Bellows.Xml.Tree
import Bellows.Yaml.Cursor
import Bellows.Yaml.Node
import Bellows.Yaml.Plain
import Bellows.Yaml.Reading
import Bellows.Yaml.Scalar
import Bellows.Yaml.Token
