import TokenGate.Bus.SipHash
import TokenGate.Text.Utf8
import TokenGate.Bus.Broker
import TokenGate.Number.Float
import TokenGate.Json.Value
import TokenGate.Text.Printable
import TokenGate.Json.Reader
import TokenGate.Json.Decode
import TokenGate.Bus.Debug
import TokenGate.Sched.Core
import TokenGate.Sched.Sync
import TokenGate.Bus.Fetch
import TokenGate.Text.Space
import TokenGate.Time.Duration
import TokenGate.Config.Transport
import TokenGate.Toml.Scan
import TokenGate.Toml.Tree
import TokenGate.Toml.Grammar
import TokenGate.Toml.Document
import TokenGate.Toml.Decode
import TokenGate.Config.Node
import TokenGate.Uuid
import TokenGate.Pending.Store
import TokenGate.Registry.Entities
import TokenGate.Registry.Store
import TokenGate.Json.Content
import TokenGate.Message.Request
import TokenGate.Message.Response
import TokenGate.Validation.Service
import TokenGate.Message.Envelope
import TokenGate.Exchange.Basic
import TokenGate.Exchange.Server
import TokenGate.Exchange.Client
import TokenGate.Exchange.Run
import TokenGate.Exchange.Node
import TokenGate.Launch.Files
import TokenGate.Registry.Seed
import TokenGate.Launch.Startup
import TokenGate.Main
import TokenGate.Pending.Session
import TokenGate.Proofs.Ledger
import TokenGate.Proofs.Runs
import TokenGate.Proofs.Frame
import TokenGate.Proofs.Logs
import TokenGate.Proofs.Sync
import TokenGate.Proofs.Table
import TokenGate.Proofs.Routing
import TokenGate.Proofs.Positions
import TokenGate.Proofs.Effects
import TokenGate.Proofs.Waiters
import TokenGate.Proofs.Decision
import TokenGate.Proofs.Settings
import TokenGate.Proofs.Reader
import TokenGate.Proofs.RequestTags
import TokenGate.Proofs.Answers
import TokenGate.Proofs.Halves
import TokenGate.Proofs.Sweep
import TokenGate.Proofs.Invariance
import TokenGate.Proofs.Counters
import TokenGate.Proofs.Wakeups
import TokenGate.Proofs.Slots
import TokenGate.Proofs.Pending
import TokenGate.Proofs.Utf8
import TokenGate.Proofs.Written
import TokenGate.Proofs.Accepted
import TokenGate.Proofs.Codec
import TokenGate.Proofs.Commits
import TokenGate.Proofs.Deadlines
import TokenGate.Proofs.Shutdown
import TokenGate.Proofs.LoopMoves
import TokenGate.Proofs.LoopTurns
import TokenGate.Proofs.Handover
