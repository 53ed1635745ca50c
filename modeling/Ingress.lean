import Ingress.Aggregator.Basic
import Ingress.Aggregator.Handler
import Ingress.Aggregator.Job
import Ingress.Batch.Stats
import Ingress.Config.Aggregator
import Ingress.Config.Gateway
import Ingress.Config.Limits
import Ingress.Config.Loose
import Ingress.Config.Metrics
import Ingress.Config.RateLimit
import Ingress.Config.Section
import Ingress.Decimal.Layout
import Ingress.Decimal.Literal
import Ingress.Decimal.Reading
import Ingress.Decimal.Shortest
import Ingress.Double
import Ingress.Event.Basic
import Ingress.Event.Card
import Ingress.Event.Kind
import Ingress.Gateway.Basic
import Ingress.Gateway.Service
import Ingress.Health.Status
import Ingress.Health.Verdict
import Ingress.Http.Response
import Ingress.Http.Router
import Ingress.Json.Decode
import Ingress.Json.Number
import Ingress.Json.Parser
import Ingress.Json.Printer
import Ingress.Json.Value
import Ingress.Launch.Basic
import Ingress.Launch.Dotenv
import Ingress.Launch.Filter
import Ingress.Launch.Host
import Ingress.Launch.Variables
import Ingress.Ledger
import Ingress.Log.Entry
import Ingress.Main
import Ingress.Metrics.Collector
import Ingress.Metrics.Export
import Ingress.Metrics.Histogram
import Ingress.Metrics.Key
import Ingress.Metrics.Name
import Ingress.Metrics.Rolling
import Ingress.Metrics.SecurityEvent
import Ingress.Pipeline.Basic
import Ingress.Pipeline.Outcome
import Ingress.Proofs.Aggregator.Backpressure
import Ingress.Proofs.Aggregator.Composition
import Ingress.Proofs.Aggregator.Conservation
import Ingress.Proofs.Aggregator.Counting
import Ingress.Proofs.Aggregator.Drain
import Ingress.Proofs.Aggregator.Endings
import Ingress.Proofs.Aggregator.Frame
import Ingress.Proofs.Aggregator.Invariant
import Ingress.Proofs.Aggregator.Isolation
import Ingress.Proofs.Aggregator.Latency
import Ingress.Proofs.Aggregator.Run
import Ingress.Proofs.Aggregator.Schedule
import Ingress.Proofs.Aggregator.Statistics
import Ingress.Proofs.Aggregator.Steps
import Ingress.Proofs.Aggregator.Traffic
import Ingress.Proofs.Aggregator.View
import Ingress.Proofs.Config.Check
import Ingress.Proofs.Config.Limits
import Ingress.Proofs.Double.OfNat
import Ingress.Proofs.Double.Product
import Ingress.Proofs.Double.Quotient
import Ingress.Proofs.Double.Value
import Ingress.Proofs.Event
import Ingress.Proofs.Event.RoundTrip
import Ingress.Proofs.Except
import Ingress.Proofs.Gateway.Accounting
import Ingress.Proofs.Gateway.Alarms
import Ingress.Proofs.Gateway.Clean
import Ingress.Proofs.Gateway.Course
import Ingress.Proofs.Gateway.Delivered
import Ingress.Proofs.Gateway.Hall
import Ingress.Proofs.Gateway.Keys
import Ingress.Proofs.Gateway.Line
import Ingress.Proofs.Gateway.Operations
import Ingress.Proofs.Gateway.Protocol
import Ingress.Proofs.Gateway.Quota
import Ingress.Proofs.Gateway.Rates
import Ingress.Proofs.Gateway.Reading
import Ingress.Proofs.Gateway.Run
import Ingress.Proofs.Gateway.Separation
import Ingress.Proofs.Gateway.Sessions
import Ingress.Proofs.Health.Share
import Ingress.Proofs.Health.Verdict
import Ingress.Proofs.Json.Everywhere
import Ingress.Proofs.Json.Length
import Ingress.Proofs.Json.Number
import Ingress.Proofs.Json.Record
import Ingress.Proofs.Json.Sorted
import Ingress.Proofs.Ledger
import Ingress.Proofs.Metrics.Counter
import Ingress.Proofs.Metrics.Increments
import Ingress.Proofs.Metrics.Lookback
import Ingress.Proofs.Metrics.OrderFree
import Ingress.Proofs.Metrics.Rendering
import Ingress.Proofs.Metrics.Rolling
import Ingress.Proofs.Metrics.Run
import Ingress.Proofs.Metrics.SecurityLog
import Ingress.Proofs.Metrics.Shares
import Ingress.Proofs.Metrics.Summaries
import Ingress.Proofs.Pipeline.Accounts
import Ingress.Proofs.Pipeline.Alarms
import Ingress.Proofs.Pipeline.Message
import Ingress.Proofs.Pipeline.Quota
import Ingress.Proofs.Pipeline.Separation
import Ingress.Proofs.RateLimit.Bound
import Ingress.Proofs.RateLimit.Check
import Ingress.Proofs.RateLimit.Held
import Ingress.Proofs.RateLimit.Naive
import Ingress.Proofs.RateLimit.Nested
import Ingress.Proofs.RateLimit.Ranking
import Ingress.Proofs.RateLimit.Refinement
import Ingress.Proofs.RateLimit.Rejections
import Ingress.Proofs.RateLimit.Separation
import Ingress.Proofs.Recent
import Ingress.Proofs.Sanitize.Building
import Ingress.Proofs.Sanitize.Event
import Ingress.Proofs.Sanitize.Keys
import Ingress.Proofs.Sanitize.Names
import Ingress.Proofs.Sanitize.Reach
import Ingress.Proofs.Sanitize.Rules
import Ingress.Proofs.Sanitize.Settled
import Ingress.Proofs.Sanitize.Shape
import Ingress.Proofs.Sanitize.Validity
import Ingress.Proofs.Sanitize.Value
import Ingress.Proofs.Text.Length
import Ingress.Proofs.Time.Calendar
import Ingress.Proofs.Time.Rfc3339
import Ingress.Proofs.Validation.Bounded
import Ingress.Proofs.Validation.Exact
import Ingress.Proofs.Validation.Grammar
import Ingress.Proofs.Validation.Verdict
import Ingress.RateLimit.Client
import Ingress.RateLimit.Limiter
import Ingress.Sanitize
import Ingress.Session.Registry
import Ingress.Table
import Ingress.Text.Class
import Ingress.Text.Order
import Ingress.Text.Quoted
import Ingress.Text.Uuid
import Ingress.Time.Calendar
import Ingress.Time.Instant
import Ingress.Time.Rfc3339
import Ingress.Toml.Document
import Ingress.Toml.Scalar
import Ingress.Toml.Tree
import Ingress.Validation.Finding
import Ingress.Validation.Limits
import Ingress.Validation.Notice
import Ingress.Validation.Rules
import Ingress.Validation.Structure
import Ingress.Validation.Validator
