import Polyphony.CommandLine.Arguments
import Polyphony.CommandLine.Composition
import Polyphony.CommandLine.Options
import Polyphony.CommandLine.Run
import Polyphony.Duration.Basic
import Polyphony.Duration.Order
import Polyphony.Duration.Ratio
import Polyphony.Duration.Text
import Polyphony.Duration.Ticks
import Polyphony.Ensemble.Accompany
import Polyphony.Ensemble.Refusal
import Polyphony.Ensemble.Series
import Polyphony.Failure
import Polyphony.Instrument.Basic
import Polyphony.Instrument.Names
import Polyphony.Json.Call
import Polyphony.Json.Writer
import Polyphony.Main
import Polyphony.Notation.Pitch
import Polyphony.Notation.Score
import Polyphony.Notation.Symbol
import Polyphony.Piece.Basic
import Polyphony.Piece.Equality
import Polyphony.Piece.Text
import Polyphony.Pitch
import Polyphony.Playback.Clock
import Polyphony.Playback.Config
import Polyphony.Playback.Fault
import Polyphony.Playback.Notice
import Polyphony.Playback.Pass
import Polyphony.Playback.Play
import Polyphony.Playback.Recording
import Polyphony.Proofs.Playback.Channels
import Polyphony.Proofs.Playback.DeviceSafety
import Polyphony.Proofs.Playback.Emission
import Polyphony.Proofs.Playback.NoteBalance
import Polyphony.Proofs.Playback.Playability
import Polyphony.Proofs.Playback.Tape
import Polyphony.Proofs.Playback.Timeline
import Polyphony.Proofs.Schedule.TickOrder
import Polyphony.Schedule.Basic
import Polyphony.Schedule.ChannelTable
import Polyphony.Schedule.Event
import Polyphony.Schedule.Json
import Polyphony.Schedule.Text
import Polyphony.Text
import Polyphony.Text.Decimal
import Polyphony.Proofs.Ensemble.Chain
import Polyphony.Proofs.Playback.Repetition
import Polyphony.Proofs.Playback.TimeShift
import Polyphony.Proofs.Notation.Spelling
import Polyphony.Proofs.Playback.Sequence
import Polyphony.Proofs.Notation.Melody
import Polyphony.Proofs.CommandLine.Reading
import Polyphony.Proofs.Duration.Zero
import Polyphony.Proofs.Playback.NoteCount
import Polyphony.Proofs.CommandLine.Composition
import Polyphony.Proofs.CommandLine.Performance
import Polyphony.Proofs.CommandLine.Request
import Polyphony.Proofs.Playback.FirstFault
import Polyphony.Proofs.Playback.Calls
import Polyphony.Proofs.Playback.Session
import Polyphony.Proofs.Playback.Transposition
import Polyphony.Proofs.Ensemble.Canon
import Polyphony.Proofs.Notation.FirstMistake
import Polyphony.Proofs.Playback.Layering
import Polyphony.Proofs.Playback.Regrouping
import Polyphony.Proofs.Notation.Juxtaposition
import Polyphony.Proofs.Notation.Lengths
import Polyphony.Proofs.Playback.Solo
import Polyphony.Proofs.CommandLine.Safety
import Polyphony.Proofs.Playback.Independence
import Polyphony.Proofs.Duration.Value
import Polyphony.Proofs.Playback.WholeTicks
import Polyphony.Proofs.Ensemble.Accompaniment
import Polyphony.Proofs.Json.Value
import Polyphony.Proofs.Json.Compact
import Polyphony.Proofs.Json.Reader
import Polyphony.Proofs.Schedule.Encoding
import Polyphony.Proofs.Playback.OneVoice
import Polyphony.Proofs.Duration.Exactness
import Polyphony.Proofs.Playback.Drift
import Polyphony.Proofs.Playback.Taking
import Polyphony.Proofs.Duration.MachineWords
import Polyphony.Proofs.Duration.Order
import Polyphony.Proofs.Duration.Ratio
import Polyphony.Proofs.Ensemble.RepeatedLength
import Polyphony.Proofs.Ensemble.Fitting
import Polyphony.Proofs.Notation.NumbersInWords
import Polyphony.Proofs.Notation.SymbolGrammar
import Polyphony.Proofs.Playback.RoundCount
import Polyphony.Proofs.Playback.FilledLoop
import Polyphony.Proofs.Piece.Length
import Polyphony.Proofs.Duration.WordComparison
import Polyphony.Proofs.Piece.Memory
import Polyphony.Proofs.Duration.WordRatio
import Polyphony.Proofs.Ensemble.Transposed
import Polyphony.Proofs.Piece.Shifts
import Polyphony.Proofs.Json.Calls
import Polyphony.Proofs.Duration.Comparison
import Polyphony.Proofs.Text.Integers
import Polyphony.Proofs.Schedule.Lines
import Polyphony.Proofs.CommandLine.Units
import Polyphony.Proofs.Duration.TickCount
import Polyphony.Proofs.Notation.CanonicalSpelling
