import AiraGateway.Serving.Estimate
import AiraGateway.Serving.Notice
import AiraGateway.Consumer.Convergence
import AiraGateway.Upstreams.Anthropic.Assemblers
import AiraGateway.Upstreams.Anthropic.Conversation
import AiraGateway.Pipeline.Redaction
import AiraGateway.Budgets.Overshoot
import AiraGateway.Budgets.Guard
import AiraGateway.Upstreams.Dialects
import AiraGateway.Budgets.Scopes
import AiraGateway.Pipeline.ChainAccounting
import AiraGateway.Pipeline.StreamedDispatch
import AiraGateway.Pipeline.ReadAsWritten
import AiraGateway.Pipeline.Runner
import AiraGateway.Serving.Pump
import AiraGateway.Anomalies.Suspensions
import AiraGateway.Persistence.Writer
import AiraGateway.Mail.Notifier
import AiraGateway.Serving.Accounting
import AiraGateway.Common.Tokens
import AiraGateway.Management.Relay
import AiraGateway.Upstreams.Gemini.Response
import AiraGateway.Pipeline.NamedModels
import AiraGateway.Access.BothPlanes
import AiraGateway.Upstreams.Vertex.Residency
import AiraGateway.Reporting.Traces
import AiraGateway.Access.Resolvers
import AiraGateway.Library.ReadCommitted
import AiraGateway.Management.Routes
import AiraGateway.Anomalies.Watermark
import AiraGateway.Management.Namesakes
import AiraGateway.Persistence.Columns
import AiraGateway.Reporting.StrictData
import AiraGateway.Core.PairedTurns
import AiraGateway.Ratelimit.Bounds
import AiraGateway.Pipeline.SummedCalls
import AiraGateway.Serving.StoredBody
import AiraGateway.Serving.SideCalls
import AiraGateway.Reporting.Absence
import AiraGateway.Serving.Thinking
import AiraGateway.Management.Declarations
import AiraGateway.Library.Occurrences
import AiraGateway.Pipeline.Boundary
import AiraGateway.Anomalies.RetryAfter
import AiraGateway.Api.Gemini
import AiraGateway.Pipeline.BatchOfTexts
import AiraGateway.Upstreams.OpenAi.Response
import AiraGateway.Library.JsonSchema
import AiraGateway.Core.Schema
import AiraGateway.Upstreams.SchemaRewriting
import AiraGateway.Upstreams.OpenAi.StrictSchema
import AiraGateway.Upstreams.Anthropic.StrictSchema
import AiraGateway.Common.Nesting
import AiraGateway.Reporting.Series
import AiraGateway.Consumer.Worker
import AiraGateway.Persistence.Storable
import AiraGateway.Persistence.Attachments
import AiraGateway.Serving.Keepalive
import AiraGateway.Upstreams.Vertex.Failover
import AiraGateway.Serving.Counting
import AiraGateway.Reporting.Narrowed
import AiraGateway.Budgets.Periods
import AiraGateway.Api.Kira.Conversation
import AiraGateway.Upstreams.Vertex.EventStream
import AiraGateway.Api.Kira.LogShape
import AiraGateway.Common.CharacterSets
import AiraGateway.Library.Regex
import AiraGateway.Library.Substitution
import AiraGateway.Persistence.Redaction
import AiraGateway.Ratelimit.Fallback
import AiraGateway.Library.Keyset
import AiraGateway.Reporting.Pages
import AiraGateway.Library.Csv
import AiraGateway.Common.Money
import AiraGateway.Reporting.Exports
import AiraGateway.Management.Keys
import AiraGateway.Access.Admission
import AiraGateway.Management.Distribution
import AiraGateway.Pipeline.Rewrites
