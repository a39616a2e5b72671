import BurnerTelemetry.Attribute.Registry
import BurnerTelemetry.Attribute.Report
import BurnerTelemetry.Attribute.Snapshot
import BurnerTelemetry.Attribute.Store
import BurnerTelemetry.ByteRing
import BurnerTelemetry.Bytes
import BurnerTelemetry.Bytes.Lemmas
import BurnerTelemetry.CommandLine
import BurnerTelemetry.Decimal.Binary64
import BurnerTelemetry.Decimal.Reading
import BurnerTelemetry.Decimal.Shortest
import BurnerTelemetry.HandoffQueue
import BurnerTelemetry.Intake
import BurnerTelemetry.LogLevel
import BurnerTelemetry.Main
import BurnerTelemetry.Reading
import BurnerTelemetry.ReadingLink
import BurnerTelemetry.Relay
import BurnerTelemetry.Reporter
import BurnerTelemetry.Settings
import BurnerTelemetry.Settings.Environment
import BurnerTelemetry.Settings.Layer
import BurnerTelemetry.Settings.Load
import BurnerTelemetry.Settings.Path
import BurnerTelemetry.Simulator
import BurnerTelemetry.Text.Blank
import BurnerTelemetry.Text.DottedQuad
import BurnerTelemetry.Text.Fields
import BurnerTelemetry.Text.Markless
import BurnerTelemetry.Text.Numeral
import BurnerTelemetry.Text.Quoted
import BurnerTelemetry.Text.Utf8
import BurnerTelemetry.Tlv.Control
import BurnerTelemetry.Tlv.Cursor
import BurnerTelemetry.Tlv.Encoder
import BurnerTelemetry.Tlv.Error
import BurnerTelemetry.Tlv.Item
import BurnerTelemetry.Toml.Document
import BurnerTelemetry.Toml.Lexeme
import BurnerTelemetry.Toml.Moment
import BurnerTelemetry.Toml.Scalar
import BurnerTelemetry.Toml.Value
import BurnerTelemetry.Wire.DecodeError
import BurnerTelemetry.Wire.Frame
import BurnerTelemetry.Wire.Message
import BurnerTelemetry.Wire.Reassembly
import BurnerTelemetry.Wire.Sighting
import BurnerTelemetry.Wire.StatusLine
import BurnerTelemetry.Proofs.Tlv.RoundTrip
import BurnerTelemetry.Proofs.Tlv.Session
import BurnerTelemetry.Proofs.Tlv.Spelling
import BurnerTelemetry.Proofs.Tlv.FailClosed
import BurnerTelemetry.Proofs.Text.Plain
import BurnerTelemetry.Proofs.Wire.Status
import BurnerTelemetry.Proofs.Wire.CleanStream
import BurnerTelemetry.Proofs.Tlv.Placement
import BurnerTelemetry.Proofs.Attribute.ReportRoundTrip
import BurnerTelemetry.Proofs.Attribute.Subscribers
import BurnerTelemetry.Proofs.Reporter.Delivery
import BurnerTelemetry.Proofs.Reporter.Session
import BurnerTelemetry.Proofs.Reporter.Agreement
import BurnerTelemetry.Proofs.Fifo.Around
import BurnerTelemetry.Proofs.Fifo.ByteRing
import BurnerTelemetry.Proofs.Fifo.HandoffQueue
import BurnerTelemetry.Proofs.Fifo.ReadingLink
import BurnerTelemetry.Proofs.Relay.Promotion
import BurnerTelemetry.Proofs.Relay.Reflection
import BurnerTelemetry.Proofs.Relay.Schedule
import BurnerTelemetry.Proofs.Tlv.Canonical
import BurnerTelemetry.Proofs.Wire.Locality
import BurnerTelemetry.Proofs.Wire.Accounting
import BurnerTelemetry.Proofs.Wire.Settling
import BurnerTelemetry.Proofs.Wire.Chunking
import BurnerTelemetry.Proofs.Fifo.Ledger
import BurnerTelemetry.Proofs.Fifo.ByteRingCalls
import BurnerTelemetry.Proofs.Fifo.ReadingLinkCalls
import BurnerTelemetry.Proofs.Attribute.StoreCalls
import BurnerTelemetry.Proofs.Fifo.HandoffQueueCalls
import BurnerTelemetry.Proofs.Text.DottedQuad
import BurnerTelemetry.Proofs.Text.Grammar
import BurnerTelemetry.Proofs.Attribute.Registration
import BurnerTelemetry.Proofs.Tlv.WriterCalls
import BurnerTelemetry.Proofs.Tlv.Atomicity
import BurnerTelemetry.Proofs.Reporter.History
import BurnerTelemetry.Proofs.Reporter.Throttling
import BurnerTelemetry.Proofs.Attribute.Staleness
import BurnerTelemetry.Proofs.Wire.FrameSearch
import BurnerTelemetry.Proofs.Wire.MergedLine
import BurnerTelemetry.Proofs.Wire.Barren
import BurnerTelemetry.Proofs.Wire.Recovery
import BurnerTelemetry.Proofs.Wire.LineGrammar
import BurnerTelemetry.Proofs.Wire.Message
import BurnerTelemetry.Proofs.Tlv.Tree
import BurnerTelemetry.Proofs.Tlv.Continuation
import BurnerTelemetry.Proofs.Attribute.ReportGrammar
import BurnerTelemetry.Proofs.Attribute.ReportDelimiting
import BurnerTelemetry.Proofs.Wire.Strays
import BurnerTelemetry.Proofs.Wire.Quiescence
import BurnerTelemetry.Proofs.Fifo.ReadingLinkDelivery
import BurnerTelemetry.Proofs.Relay.Conservation
import BurnerTelemetry.Proofs.Reporter.Accounts
