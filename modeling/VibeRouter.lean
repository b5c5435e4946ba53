import VibeRouter.Lib.Prog
import VibeRouter.Lib.Code
import VibeRouter.Lib.Generator
import VibeRouter.Lib.Pool
import VibeRouter.Lib.JsMap
import VibeRouter.Lib.JsString
import VibeRouter.Lib.Regex
import VibeRouter.Lib.RegexRuns
import VibeRouter.Lib.RegexSearch
import VibeRouter.Lib.RegexShapes
import VibeRouter.Lib.RegexLanguage
import VibeRouter.Lib.RegexForward
import VibeRouter.Lib.Trim
import VibeRouter.Lib.Json
import VibeRouter.Lib.Csv
import VibeRouter.Lib.JsonText
import VibeRouter.Lib.JsonLiterals
import VibeRouter.Lib.JsonRead
import VibeRouter.Lib.JsonOrder
import VibeRouter.Lib.Base64
import VibeRouter.Lib.Utf8
import VibeRouter.Db.Schema
import VibeRouter.Gateway.Errors
import VibeRouter.Gateway.Envelope
import VibeRouter.Protect.Scrub
import VibeRouter.Platform
import VibeRouter.Vault.Crypto
import VibeRouter.Vault.Envelope
import VibeRouter.Db.Credentials
import VibeRouter.Vault.Rotation
import VibeRouter.Vault.Service
import VibeRouter.Vault.Active
import VibeRouter.Net.Ssrf
import VibeRouter.Catalog.Service
import VibeRouter.Policy.Engine
import VibeRouter.Gateway.Verify
import VibeRouter.Gateway.Validation
import VibeRouter.Gateway.Fences
import VibeRouter.Lib.Calendar
import VibeRouter.Resilience.Backoff
import VibeRouter.Resilience.Breaker
import VibeRouter.Ops.Cache
import VibeRouter.Ledger.Cost
import VibeRouter.Gateway.Context
import VibeRouter.Gateway.Op
import VibeRouter.Policy.Cache
import VibeRouter.Ledger.Budget
import VibeRouter.Gateway.Stages
import VibeRouter.Resilience.Executor
import VibeRouter.Ledger.Writer
import VibeRouter.Gateway.Pipeline
import VibeRouter.Gateway.Routes
import VibeRouter.Gateway.Uses
import VibeRouter.Gateway.StageSpecs
import VibeRouter.Policy.Selection
import VibeRouter.Protect.Redaction
import VibeRouter.Protect.Spans
import VibeRouter.Protect.Identifiers
import VibeRouter.Protect.Cards
import VibeRouter.Protect.MissedCards
import VibeRouter.Protect.Parted
import VibeRouter.Protect.Settled
import VibeRouter.Protect.Seams
import VibeRouter.Gateway.Subset
import VibeRouter.Resilience.ExecutorSpecs
import VibeRouter.Gateway.PipelineSpecs
import VibeRouter.Gateway.Gate
import VibeRouter.Gateway.Calls
import VibeRouter.Gateway.Boundary
import VibeRouter.Gateway.Limits
import VibeRouter.Resilience.Hops
import VibeRouter.Resilience.Probe
import VibeRouter.Ops.Served
import VibeRouter.Gateway.Identity
import VibeRouter.Ops.Recency
import VibeRouter.Resilience.Reference
import VibeRouter.Resilience.Refinement
import VibeRouter.Resilience.Repeated
import VibeRouter.Resilience.Shed
import VibeRouter.Resilience.HalfOpen
import VibeRouter.Resilience.Signals
import VibeRouter.Resilience.Watched
import VibeRouter.Resilience.WatchedRuns
import VibeRouter.Resilience.Aborts
import VibeRouter.Resilience.Turns
import VibeRouter.Gateway.Lasting
import VibeRouter.Resilience.Attempts
import VibeRouter.Ledger.Account
import VibeRouter.Ledger.OneRow
import VibeRouter.Ledger.Recompute
import VibeRouter.Ledger.Repriced
import VibeRouter.Adapters.Anthropic
import VibeRouter.Adapters.BrokenStreams
import VibeRouter.Adapters.OpenaiCompat
import VibeRouter.Adapters.Http
import VibeRouter.Ledger.Consistent
import VibeRouter.Ledger.Retention
import VibeRouter.Lib.Rows
import VibeRouter.Db.Admin
import VibeRouter.Db.Lookups
import VibeRouter.Policy.Save
import VibeRouter.Policy.Import
import VibeRouter.Db.Resolved
import VibeRouter.Policy.Gates
import VibeRouter.Policy.Effective
import VibeRouter.Policy.Patterns
import VibeRouter.Policy.RoundTrip
import VibeRouter.Sdk.ForcedJson
import VibeRouter.Policy.Substitutes
import VibeRouter.Resilience.States
import VibeRouter.Resilience.Phases
import VibeRouter.Resilience.Traffic
import VibeRouter.Resilience.DeadWaiters
import VibeRouter.Lib.Interleave
import VibeRouter.Lib.Incremental
import VibeRouter.Lib.LineEnds
import VibeRouter.Adapters.ToolCalls
import VibeRouter.Adapters.ToolChunks
import VibeRouter.Adapters.OneFinish
import VibeRouter.Adapters.Streamed
import VibeRouter.Adapters.Sse
import VibeRouter.Sdk.Stream
import VibeRouter.Resilience.Refusals
import VibeRouter.Gateway.Unions
import VibeRouter.Gateway.Orders
import VibeRouter.Gateway.Variants
import VibeRouter.Gateway.Verdicts
import VibeRouter.Lib.Utf8Stream
import VibeRouter.Lib.JsonLines
import VibeRouter.Gateway.Relay
import VibeRouter.Lib.Decimal
import VibeRouter.Sdk.Sendable
import VibeRouter.Sdk.Inverse
import VibeRouter.Lib.TokenBucket
import VibeRouter.Resilience.Limiter
import VibeRouter.Ledger.Exact
import VibeRouter.Vault.Stops
import VibeRouter.Lib.IpText
import VibeRouter.Net.Literals
import VibeRouter.Policy.Pack
import VibeRouter.Policy.Registration
import VibeRouter.Policy.Binds
import VibeRouter.Lib.Zod
import VibeRouter.Gateway.Ingress
import VibeRouter.Adapters.RequestBody
import VibeRouter.Gateway.DepthGuard
import VibeRouter.Adapters.Reread
import VibeRouter.Adapters.AnthropicRequest
import VibeRouter.Adapters.CleanOut
import VibeRouter.Adapters.Completions
import VibeRouter.AdminApi.Sessions
import VibeRouter.AdminApi.Logins
import VibeRouter.AdminApi.OldLogins
import VibeRouter.AdminApi.Exports
import VibeRouter.Catalog.Feed
import VibeRouter.Gateway.Quota
import VibeRouter.Lib.ReadWrite
import VibeRouter.AdminApi.Settings
import VibeRouter.AdminApi.LostUpdates
import VibeRouter.Lib.Knowledge
import VibeRouter.Catalog.Probe
import VibeRouter.Catalog.Store
import VibeRouter.Catalog.Sync
import VibeRouter.Catalog.Discovery
import VibeRouter.Catalog.Refresh
import VibeRouter.Catalog.Edits
import VibeRouter.Catalog.Views
import VibeRouter.Catalog.Rows
import VibeRouter.Catalog.Ownership
import VibeRouter.Catalog.Settled
import VibeRouter.Catalog.Resync
import VibeRouter.Catalog.Rediscovery
import VibeRouter.Catalog.Survival
import VibeRouter.Lib.Past
import VibeRouter.Ledger.Funds
import VibeRouter.Lib.Unwinding
import VibeRouter.Gateway.Owned
import VibeRouter.Gateway.OwnedCalls
import VibeRouter.Gateway.Firms
import VibeRouter.Ledger.Aggregate
import VibeRouter.Ledger.Billing
import VibeRouter.Ledger.Precheck
import VibeRouter.Vault.Health
import VibeRouter.Db.Migrate
