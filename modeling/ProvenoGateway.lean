import ProvenoGateway.Hex
import ProvenoGateway.Json
import ProvenoGateway.JsonParse
import ProvenoGateway.OrdMap
import ProvenoGateway.JsonValue
import ProvenoGateway.Serde
import ProvenoGateway.Program
import ProvenoGateway.Interleave
import ProvenoGateway.Text
import ProvenoGateway.Config
import ProvenoGateway.Core
import ProvenoGateway.Linked
import ProvenoGateway.Policy
import ProvenoGateway.Trace
import ProvenoGateway.Reference
import ProvenoGateway.Effects
import ProvenoGateway.Store
import ProvenoGateway.Protocol
import ProvenoGateway.StoreCalls
import ProvenoGateway.AppendOnly
import ProvenoGateway.Crashes
import ProvenoGateway.Downstream
import ProvenoGateway.Provenance
import ProvenoGateway.Values
import ProvenoGateway.Host
import ProvenoGateway.Dialect
import ProvenoGateway.Description
import ProvenoGateway.Engine
import ProvenoGateway.Replay
import ProvenoGateway.Mediation
import ProvenoGateway.Entries
import ProvenoGateway.Signing
import ProvenoGateway.Solo
import ProvenoGateway.Integrity
import ProvenoGateway.RecordReplay
import ProvenoGateway.Tampering
import ProvenoGateway.Lifecycle
import ProvenoGateway.Readers
import ProvenoGateway.PolicyMeaning
import ProvenoGateway.PolicyHash
import ProvenoGateway.LuaNames
import ProvenoGateway.Startup
import ProvenoGateway.Grammar
import ProvenoGateway.Lua
import ProvenoGateway.LuaLexer
import ProvenoGateway.Prelude
import ProvenoGateway.Chunk
import ProvenoGateway.Shadowing
import ProvenoGateway.Advertised
import ProvenoGateway.Lockstep
import ProvenoGateway.Metadata
import ProvenoGateway.Server
import ProvenoGateway.Classify
import ProvenoGateway.Transitions
import ProvenoGateway.Guard
import ProvenoGateway.AgentRun
import ProvenoGateway.StopRules
import ProvenoGateway.Replies
import ProvenoGateway.JsonPath
import ProvenoGateway.Mapping
import ProvenoGateway.Integers
import ProvenoGateway.LineNumbers
import ProvenoGateway.ToolLines
import ProvenoGateway.SortBy
import ProvenoGateway.DescriptionOrder
import ProvenoGateway.Bearer
import ProvenoGateway.Footprint
import ProvenoGateway.Isolation
import ProvenoGateway.Schema
import ProvenoGateway.Handler
import ProvenoGateway.Authority
import ProvenoGateway.Attribution
import ProvenoGateway.Rerun
import ProvenoGateway.Receipts
import ProvenoGateway.Wallet
import ProvenoGateway.Spending
import ProvenoGateway.TaskSpending
import ProvenoGateway.Credentials
