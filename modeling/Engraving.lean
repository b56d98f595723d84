import Engraving.CommandLine.Arguments
import Engraving.CommandLine.Execution
import Engraving.CommandLine.Host
import Engraving.CommandLine.Run
import Engraving.Config.Loading
import Engraving.Document.Conversion
import Engraving.Document.Value
import Engraving.Duration
import Engraving.Files
import Engraving.Grid
import Engraving.Image.Inflate
import Engraving.Image.Png
import Engraving.Image.Png.Header
import Engraving.Image.Portable
import Engraving.Image.Sampling
import Engraving.Main
import Engraving.Number.Exact
import Engraving.Number.Quantity
import Engraving.Number.Reading
import Engraving.Number.Writing
import Engraving.Preview.Canvas
import Engraving.Preview.Figure
import Engraving.Preview.Style
import Engraving.Preview.Surface
import Engraving.Program.Compiler
import Engraving.Program.Job
import Engraving.Proofs.CommandLine.Compilation
import Engraving.Proofs.CommandLine.Escape
import Engraving.Proofs.CommandLine.Outcome
import Engraving.Proofs.CommandLine.Settlement
import Engraving.Proofs.CommandLine.Uptake
import Engraving.Proofs.CommandLine.Wording
import Engraving.Proofs.CommandLine.Workbench
import Engraving.Proofs.Config.Acceptance
import Engraving.Proofs.Config.ColorText
import Engraving.Proofs.Config.Fitness
import Engraving.Proofs.Config.Origin
import Engraving.Proofs.Config.Recoloring
import Engraving.Proofs.Config.Selection
import Engraving.Proofs.Config.StrayDocument
import Engraving.Proofs.Config.StrayFailure
import Engraving.Proofs.Config.StrayLaser
import Engraving.Proofs.Duration
import Engraving.Proofs.Except
import Engraving.Proofs.Image.Size
import Engraving.Proofs.Number.BinaryGrid
import Engraving.Proofs.Number.DecimalText
import Engraving.Proofs.Number.FixedPoint
import Engraving.Proofs.Number.FloatArithmetic
import Engraving.Proofs.Number.FloatOrder
import Engraving.Proofs.Number.FloatSign
import Engraving.Proofs.Number.FloatValue
import Engraving.Proofs.Number.NearestEven
import Engraving.Proofs.Number.NumberText
import Engraving.Proofs.Number.Packing
import Engraving.Proofs.Number.RepeatedSum
import Engraving.Proofs.Number.Significand
import Engraving.Proofs.Power
import Engraving.Proofs.Preview.Finiteness
import Engraving.Proofs.Preview.Fitting
import Engraving.Proofs.Preview.Placement
import Engraving.Proofs.Preview.Size
import Engraving.Proofs.Program.Accounting
import Engraving.Proofs.Program.BurntPlaces
import Engraving.Proofs.Program.Coalescing
import Engraving.Proofs.Program.Completion
import Engraving.Proofs.Program.Emission
import Engraving.Proofs.Program.Joining
import Engraving.Proofs.Program.LineText
import Engraving.Proofs.Program.LineWords
import Engraving.Proofs.Program.Raster
import Engraving.Proofs.Program.Refusal
import Engraving.Proofs.Program.Runs
import Engraving.Proofs.Program.Safety
import Engraving.Proofs.Program.ScanLength
import Engraving.Proofs.Program.Strength
import Engraving.Proofs.Program.Strides
import Engraving.Proofs.Program.Tolerance
import Engraving.Proofs.Program.Validity
import Engraving.Proofs.Text.Lines
import Engraving.Proofs.Text.Utf8
import Engraving.Proofs.Toolpath.AddressWord
import Engraving.Proofs.Toolpath.Continuation
import Engraving.Proofs.Toolpath.Enclosure
import Engraving.Proofs.Toolpath.ExactPath
import Engraving.Proofs.Toolpath.Invariant
import Engraving.Proofs.Toolpath.Layout
import Engraving.Proofs.Toolpath.LeastRectangle
import Engraving.Proofs.Toolpath.LineReading
import Engraving.Proofs.Toolpath.Obedience
import Engraving.Proofs.Toolpath.Overflow
import Engraving.Proofs.Toolpath.Remark
import Engraving.Proofs.Toolpath.RoundTrip
import Engraving.Proofs.Toolpath.Strictness
import Engraving.Proofs.Toolpath.TypedLine
import Engraving.Proofs.Toolpath.WordSplit
import Engraving.Proofs.Toolpath.WordText
import Engraving.Text.Case
import Engraving.Text.Character
import Engraving.Text.Encoding
import Engraving.Text.Quoted
import Engraving.Toolpath.Reading
import Engraving.Toolpath.Word
import Engraving.Yaml.Form
import Engraving.Yaml.Node
import Engraving.Yaml.Reading
import Engraving.Yaml.ScalarText
import Engraving.Yaml.Scanner
import Engraving.Yaml.Stream
