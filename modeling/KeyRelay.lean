import KeyRelay.Decimal.Binary
import KeyRelay.Decimal.Read
import KeyRelay.Decimal.Shortest
import KeyRelay.Decimal.Text
import KeyRelay.Text.Hex
import KeyRelay.Text.Base64
import KeyRelay.Text.Ranges
import KeyRelay.Text.Printable
import KeyRelay.Text.Extend
import KeyRelay.Text.Escape
import KeyRelay.Text.Utf8
import KeyRelay.Ident
import KeyRelay.Cbor.Head
import KeyRelay.Cbor.Reader
import KeyRelay.Wire.Value
import KeyRelay.Wire.Read
import KeyRelay.Role
import KeyRelay.Fault
import KeyRelay.Span
import KeyRelay.Block
import KeyRelay.Material
import KeyRelay.Config
import KeyRelay.Json.Basic
import KeyRelay.Json.Parse
import KeyRelay.Json.Print
import KeyRelay.Wire.Json
import KeyRelay.Session
import KeyRelay.Key
import KeyRelay.Message
import KeyRelay.Wire.Layout
import KeyRelay.RateArith
import KeyRelay.Rate
import KeyRelay.Transport
import KeyRelay.Store.Error
import KeyRelay.Relay
import KeyRelay.Scenario.Input
import KeyRelay.Scenario.Output
import KeyRelay.Scenario.Steps
import KeyRelay.Scenario.Basic
import KeyRelay.Scenario.Faults
import KeyRelay.Scenario.Codec
import KeyRelay.Table
import KeyRelay.Session.Index
import KeyRelay.Scenario.Pool
import KeyRelay.Scenario.Engines
import KeyRelay.Scenario.Kmes
import KeyRelay.Scenario.Control
import KeyRelay.Scenario.Net
import KeyRelay.Scenario.Answer
import KeyRelay.Env
import KeyRelay.Stateful
import KeyRelay.Store.Basic
import KeyRelay.Store.Chaos
import KeyRelay.Store.Storage
import KeyRelay.Pool
import KeyRelay.Engine
import KeyRelay.Kme
import KeyRelay.Graph
import KeyRelay.Directory
import KeyRelay.Controller
import KeyRelay.Network
import KeyRelay.Invariants
import KeyRelay.Proofs.Table
import KeyRelay.Proofs.Records
import KeyRelay.Proofs.Run
import KeyRelay.Proofs.Carve
import KeyRelay.Proofs.Pool
import KeyRelay.Proofs.Engine
import KeyRelay.Proofs.Node
import KeyRelay.Proofs.Handle
import KeyRelay.Proofs.Link
import KeyRelay.Proofs.Solo
import KeyRelay.Proofs.Ends
import KeyRelay.Proofs.Lockstep
import KeyRelay.Proofs.Flight
import KeyRelay.Proofs.Bookkeeping
import KeyRelay.Proofs.Exact
import KeyRelay.Proofs.Ledger
import KeyRelay.Proofs.Paths
import KeyRelay.Proofs.Admission
import KeyRelay.Proofs.Refs
import KeyRelay.Proofs.Backed
import KeyRelay.Proofs.Resident
import KeyRelay.Proofs.Cascade
import KeyRelay.Proofs.Footprint
import KeyRelay.Proofs.Forgotten
import KeyRelay.Proofs.Prefetch
import KeyRelay.Proofs.Companion
import KeyRelay.Proofs.DirectSession
import KeyRelay.Proofs.Pairing
import KeyRelay.Store.File
import KeyRelay.Proofs.ByteOrder
import KeyRelay.Proofs.FileStore
import KeyRelay.Proofs.FloatWidth
import KeyRelay.Proofs.CborHeads
import KeyRelay.Proofs.Utf8Scan
import KeyRelay.Proofs.ScalarRead
import KeyRelay.Proofs.ReadBack
import KeyRelay.Proofs.MessageCodec
import KeyRelay.Proofs.LinkFrame
import KeyRelay.Proofs.Reopen
import KeyRelay.Proofs.Scheduled
import KeyRelay.Proofs.Generation
import KeyRelay.Proofs.Retrieval
import KeyRelay.Proofs.Acknowledgement
import KeyRelay.Proofs.FailedRequest
import KeyRelay.Proofs.PairIndex
import KeyRelay.Proofs.Rejection
import KeyRelay.Proofs.Oldest
import KeyRelay.Proofs.Layers
import KeyRelay.Proofs.PathTable
import KeyRelay.Proofs.Base64Canonical
import KeyRelay.Proofs.Masking
import KeyRelay.Proofs.WindowReference
import KeyRelay.Proofs.RelayOrder
import KeyRelay.Proofs.Roles
import KeyRelay.Proofs.Undo
import KeyRelay.Proofs.Topology
import KeyRelay.Proofs.KeyBook
import KeyRelay.Proofs.Carrying
import KeyRelay.Proofs.Tallying
import KeyRelay.Proofs.Custody
import KeyRelay.Proofs.Handover
import KeyRelay.Proofs.Agreement
