import Sequencer.Barrier.Mailbox
import Sequencer.Bisect
import Sequencer.Board.Basic
import Sequencer.Board.Channel
import Sequencer.Board.Config
import Sequencer.Board.Device
import Sequencer.Board.Error
import Sequencer.Board.Options
import Sequencer.Bus.Checksum
import Sequencer.Bus.Word
import Sequencer.Codec.Basic
import Sequencer.Codec.Check
import Sequencer.Codec.Converter
import Sequencer.Codec.Fields
import Sequencer.Codec.Registry
import Sequencer.Codec.Synthesizer
import Sequencer.Experiment
import Sequencer.Keyed
import Sequencer.Link.Chunks
import Sequencer.Link.Client
import Sequencer.Link.Command
import Sequencer.Link.Error
import Sequencer.Link.Fields
import Sequencer.Link.Frame
import Sequencer.Link.Network
import Sequencer.Link.Simulated
import Sequencer.Link.Status
import Sequencer.Number.Decimal
import Sequencer.Number.Power
import Sequencer.Number.Scalar
import Sequencer.Program
import Sequencer.Routing.Firmware
import Sequencer.Routing.Route
import Sequencer.Routing.Table
import Sequencer.Run.Configuration
import Sequencer.Run.Crew
import Sequencer.Run.Error
import Sequencer.Run.Interface
import Sequencer.Run.Repetition
import Sequencer.Run.Worker
import Sequencer.Script
import Sequencer.Settings.Document
import Sequencer.Settings.Error
import Sequencer.Settings.Fields
import Sequencer.Settings.Value
import Sequencer.Settings.Worker
import Sequencer.Stream.Basic
import Sequencer.Stream.Compile
import Sequencer.Stream.Conflict
import Sequencer.Stream.Placement
import Sequencer.Stream.Plan
import Sequencer.Text.Blank
import Sequencer.Text.Duration
import Sequencer.Text.Layout
import Sequencer.Text.Quoted
import Sequencer.Timeline.Instruction
import Sequencer.Timeline.Tick
import Sequencer.Toml.Document
import Sequencer.Toml.Node
import Sequencer.Toml.Printer
import Sequencer.Toml.Quoted
import Sequencer.Toml.Reader
import Sequencer.Toml.Scalar
import Sequencer.Proofs.Ascending
import Sequencer.Proofs.Bookings
import Sequencer.Proofs.BusWord
import Sequencer.Proofs.BoardEdits
import Sequencer.Proofs.DevicePlan
import Sequencer.Proofs.BankCursors
import Sequencer.Proofs.PlannedWords
import Sequencer.Proofs.StopTick
import Sequencer.Proofs.Placement
import Sequencer.Proofs.Emission
import Sequencer.Proofs.StreamRows
import Sequencer.Proofs.ConflictReport
import Sequencer.Proofs.RowWords
import Sequencer.Proofs.StreamShape
import Sequencer.Proofs.Replay
import Sequencer.Proofs.Decoding
import Sequencer.Proofs.FrameCodec
import Sequencer.Proofs.ProgramLogic
import Sequencer.Proofs.Traces
import Sequencer.Proofs.RunEvents
import Sequencer.Proofs.Exchange
import Sequencer.Proofs.ClientTalk
import Sequencer.Proofs.Conversation
import Sequencer.Proofs.WorkerSteps
import Sequencer.Proofs.PrimaryRun
import Sequencer.Proofs.SecondaryRun
import Sequencer.Proofs.Mail
import Sequencer.Proofs.Team
import Sequencer.Proofs.TeamHistory
import Sequencer.Proofs.EndAgreement
import Sequencer.Proofs.StartSafety
import Sequencer.Proofs.Rehearsal
import Sequencer.Proofs.FirstSigns
import Sequencer.Proofs.CrewRounds
import Sequencer.Proofs.RootCause
import Sequencer.Proofs.Segments
import Sequencer.Proofs.RunParts
import Sequencer.Proofs.RunCourse
import Sequencer.Proofs.Announcements
import Sequencer.Proofs.ClockRelease
import Sequencer.Proofs.SimulatedRun
import Sequencer.Proofs.Verification
import Sequencer.Proofs.RoutingFields
import Sequencer.Proofs.RoutingSelection
import Sequencer.Proofs.WireFormat
import Sequencer.Proofs.FrameStream
import Sequencer.Proofs.RoutingInverse
import Sequencer.Proofs.BoardAnswers
import Sequencer.Proofs.Chunks
import Sequencer.Proofs.ChunkRange
import Sequencer.Proofs.BoardTalk
import Sequencer.Proofs.ClientPolicy
import Sequencer.Proofs.InStep
import Sequencer.Proofs.ClientCourse
import Sequencer.Proofs.ClientStates
import Sequencer.Proofs.UploadAgreement
import Sequencer.Proofs.BusMap
import Sequencer.Proofs.Names
import Sequencer.Proofs.Fingerprint
import Sequencer.Proofs.ReportedCause
import Sequencer.Proofs.Counters
import Sequencer.Proofs.MailboxLaws
import Sequencer.Proofs.Additions
import Sequencer.Proofs.Expansion
import Sequencer.Proofs.MarkerOrder
import Sequencer.Proofs.EditOrder
import Sequencer.Proofs.TickRange
import Sequencer.Proofs.StopTime
import Sequencer.Proofs.OptionLayers
import Sequencer.Proofs.RoutingMerge
import Sequencer.Proofs.Interleaving
import Sequencer.Proofs.SerialChecksum
import Sequencer.Proofs.EvenRounding
import Sequencer.Proofs.TickRoundTrip
import Sequencer.Proofs.LinearCodecs
import Sequencer.Proofs.Packets
import Sequencer.Proofs.ExactProgress
import Sequencer.Proofs.RouteText
import Sequencer.Proofs.Reconnection
