import Waveform.Binary64
import Waveform.Binary64.Decimal
import Waveform.Bit
import Waveform.Bit.Alphabet
import Waveform.Bit.Text
import Waveform.Change
import Waveform.ChangeTimes
import Waveform.Decimal
import Waveform.Demo.Arguments
import Waveform.Demo.Report
import Waveform.Demo.Testbench
import Waveform.History
import Waveform.History.Lookup
import Waveform.Interchange.Cases
import Waveform.Interchange.Histories
import Waveform.Interchange.Integer
import Waveform.Interchange.Records
import Waveform.Json
import Waveform.Json.Number
import Waveform.Json.Parser
import Waveform.Json.Printer
import Waveform.Json.Token
import Waveform.Log.Filter
import Waveform.Log.Severity
import Waveform.Main
import Waveform.Proofs.Bit.Alphabet
import Waveform.Proofs.Bit.Number
import Waveform.Proofs.Bit.Text
import Waveform.Proofs.ChangeTimes
import Waveform.Proofs.Decimal.Doubling
import Waveform.Proofs.Decimal.Passes
import Waveform.Proofs.Demo.Arguments
import Waveform.Proofs.Demo.Calls
import Waveform.Proofs.Demo.Report
import Waveform.Proofs.Demo.Testbench
import Waveform.Proofs.Demo.Ticks
import Waveform.Proofs.Extent
import Waveform.Proofs.History.Bisection
import Waveform.Proofs.History.Block
import Waveform.Proofs.History.Building
import Waveform.Proofs.History.Cursor
import Waveform.Proofs.History.Extension
import Waveform.Proofs.History.Growth
import Waveform.Proofs.History.Lookup
import Waveform.Proofs.History.Offering
import Waveform.Proofs.History.Order
import Waveform.Proofs.History.Walk
import Waveform.Proofs.Interchange.Histories
import Waveform.Proofs.Interchange.Records
import Waveform.Proofs.Json.Scanning
import Waveform.Proofs.Json.Text
import Waveform.Proofs.Reading.Encoding
import Waveform.Proofs.Reading.Faithful
import Waveform.Proofs.Reading.Kind
import Waveform.Proofs.Reading.Policy
import Waveform.Proofs.Reading.Vector
import Waveform.Proofs.Recorder.Acceptance
import Waveform.Proofs.Recorder.Extension
import Waveform.Proofs.Recorder.Fitting
import Waveform.Proofs.Recorder.Interleaving
import Waveform.Proofs.Recorder.Naming
import Waveform.Proofs.Recorder.Outline
import Waveform.Proofs.Recorder.Run
import Waveform.Proofs.Recorder.Step
import Waveform.Proofs.Recorder.Verdict
import Waveform.Proofs.Recording.Extent
import Waveform.Proofs.Recording.Footprint
import Waveform.Proofs.Recording.FullName
import Waveform.Proofs.Recording.Sampling
import Waveform.Reading
import Waveform.Recorder
import Waveform.Recorder.NameTable
import Waveform.Recording
import Waveform.Signal
import Waveform.Text.CharLiteral
import Waveform.Text.Pieces
import Waveform.TimeAxis
