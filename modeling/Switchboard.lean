import Switchboard.Bench.Contexts
import Switchboard.Bench.Demo
import Switchboard.Bench.Directory
import Switchboard.Bench.Draws
import Switchboard.Bench.Hooks
import Switchboard.Bench.Network
import Switchboard.Bench.PoolRun
import Switchboard.Bench.World
import Switchboard.Bytes
import Switchboard.Client
import Switchboard.Client.Call
import Switchboard.Client.Config
import Switchboard.Client.Context
import Switchboard.Client.Exchange
import Switchboard.Client.Filter
import Switchboard.Client.Metrics
import Switchboard.Client.Options
import Switchboard.Client.Policy
import Switchboard.Client.Pool
import Switchboard.Client.ResponseCache
import Switchboard.Client.Retry
import Switchboard.Client.Selector
import Switchboard.Client.Strategy
import Switchboard.Client.Stream
import Switchboard.Client.Tracing
import Switchboard.Client.Wrapper
import Switchboard.Decimal
import Switchboard.Dict
import Switchboard.Discovery.Cache
import Switchboard.Discovery.Catalog
import Switchboard.Discovery.Change
import Switchboard.Discovery.Error
import Switchboard.Discovery.Feed
import Switchboard.Discovery.Hub
import Switchboard.Discovery.Registry
import Switchboard.Discovery.Restart
import Switchboard.Discovery.Service
import Switchboard.Greeter
import Switchboard.Json.Number
import Switchboard.Json.Record
import Switchboard.Json.Text
import Switchboard.Json.Value
import Switchboard.Main
import Switchboard.Rpc.Codec
import Switchboard.Rpc.CodecSet
import Switchboard.Rpc.CodecTable
import Switchboard.Rpc.Envelope
import Switchboard.Rpc.Error
import Switchboard.Rpc.Fingerprint
import Switchboard.Rpc.Message
import Switchboard.Rpc.Request
import Switchboard.Rpc.Server
import Switchboard.Rpc.Status
import Switchboard.Sha256
import Switchboard.Text.Blank
import Switchboard.Text.Quoted
import Switchboard.Text.Visible
import Switchboard.Time
import Switchboard.Timestamp
import Switchboard.Transport.Error
import Switchboard.Transport.Framing
import Switchboard.Yaml.Cursor
import Switchboard.Yaml.Node
import Switchboard.Yaml.Scalar
import Switchboard.Yaml.Token
import Switchboard.Proofs.Discovery.Contents
import Switchboard.Proofs.Discovery.Replay
import Switchboard.Proofs.Discovery.Folding
import Switchboard.Proofs.Discovery.Catalog
import Switchboard.Proofs.Discovery.Records
import Switchboard.Proofs.Discovery.Feed
import Switchboard.Proofs.Discovery.Hub
import Switchboard.Proofs.Discovery.Loops
import Switchboard.Proofs.Discovery.Fetches
import Switchboard.Proofs.Discovery.CachedRegistry
import Switchboard.Proofs.Discovery.Bookkeeping
import Switchboard.Proofs.Discovery.Mirror
import Switchboard.Proofs.Discovery.SingleFlight
import Switchboard.Proofs.Discovery.Roster
import Switchboard.Proofs.Discovery.WatchLoops
import Switchboard.Proofs.Discovery.Deletion
import Switchboard.Proofs.Discovery.Lifetimes
import Switchboard.Proofs.Discovery.Staleness
import Switchboard.Proofs.Discovery.History
import Switchboard.Proofs.Discovery.Ledger
import Switchboard.Proofs.Bytes
import Switchboard.Proofs.Json.Skip
import Switchboard.Proofs.Json.Quote
import Switchboard.Proofs.Json.Record
import Switchboard.Proofs.Json.TextMap
import Switchboard.Proofs.Json.Number
import Switchboard.Proofs.Rpc.Codec
import Switchboard.Proofs.Rpc.Envelope
import Switchboard.Proofs.Rpc.Status
import Switchboard.Proofs.Rpc.Server
import Switchboard.Proofs.Client.CallLoop
import Switchboard.Proofs.Client.CallRun
import Switchboard.Proofs.Client.Negotiation
import Switchboard.Proofs.Client.Reports
import Switchboard.Proofs.Client.Pool
import Switchboard.Proofs.Client.Custody
import Switchboard.Proofs.Client.Turns
import Switchboard.Proofs.Client.Traffic
import Switchboard.Proofs.Client.StreamSession
import Switchboard.Proofs.Client.ResponseCache
import Switchboard.Proofs.Client.Answering
import Switchboard.Proofs.Rpc.Fingerprint
import Switchboard.Proofs.Runs
import Switchboard.Proofs.Client.Recall
import Switchboard.Proofs.Discovery.ServingCache
import Switchboard.Proofs.Discovery.Outage
import Switchboard.Proofs.Discovery.Absence
import Switchboard.Proofs.Transport.Framing
import Switchboard.Proofs.Discovery.Revision
import Switchboard.Proofs.Discovery.Purge
import Switchboard.Proofs.Json.Grammar
import Switchboard.Proofs.Rpc.JsonCall
import Switchboard.Proofs.Rpc.Binary
import Switchboard.Proofs.Json.Meaning
import Switchboard.Proofs.Json.Parts
import Switchboard.Proofs.Rpc.StatusText
import Switchboard.Proofs.Client.Recency
import Switchboard.Proofs.Client.Listing
import Switchboard.Proofs.Client.Lru
import Switchboard.Proofs.Client.Reuse
import Switchboard.Proofs.Client.Filtering
import Switchboard.Proofs.Client.Selection
import Switchboard.Proofs.Client.Rotation
import Switchboard.Proofs.Client.Transmission
import Switchboard.Proofs.Client.Headers
import Switchboard.Proofs.Client.Dispatch
import Switchboard.Proofs.Client.Lineage
import Switchboard.Proofs.Client.Hooks
import Switchboard.Proofs.Discovery.Delivery
import Switchboard.Proofs.Client.Series
import Switchboard.Proofs.Client.Tally
import Switchboard.Proofs.Client.Tracing
import Switchboard.Proofs.Discovery.Pacing
import Switchboard.Proofs.Transport.Refusal
import Switchboard.Proofs.Json.Sparing
import Switchboard.Proofs.Discovery.ServiceText
import Switchboard.Proofs.Discovery.Upkeep
