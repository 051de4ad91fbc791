import InferenceGateway.Orchestrator.PromptKey
import InferenceGateway.Resilience.BreakerMachine
import InferenceGateway.Resilience.BreakerReport
import InferenceGateway.Resilience.RateLimitWindow
import InferenceGateway.Resilience.RateLimitReconcile
import InferenceGateway.Resilience.RateLimitSkew
import InferenceGateway.Orchestrator.CompleteWalk
import InferenceGateway.Orchestrator.Provenance
import InferenceGateway.Orchestrator.Bypass
import InferenceGateway.Orchestrator.Degradation
import InferenceGateway.Orchestrator.Agreement
import InferenceGateway.Orchestrator.Logging
import InferenceGateway.Orchestrator.FailedBudget
import InferenceGateway.Orchestrator.Freshness
import InferenceGateway.Orchestrator.AdminUpsert
import InferenceGateway.Orchestrator.ReloadOrder
import InferenceGateway.Orchestrator.HotReload
import InferenceGateway.Orchestrator.OpenCircuit
import InferenceGateway.Persistence.BestMatch
import InferenceGateway.Orchestrator.PolicyWalk
import InferenceGateway.Orchestrator.Concurrency
import InferenceGateway.Orchestrator.Replay
import InferenceGateway.Orchestrator.TierIdentity
import InferenceGateway.Orchestrator.SlowReader
import InferenceGateway.Resilience.LatencyWindow
import InferenceGateway.Resilience.RateLimitDeadline
import InferenceGateway.Resilience.RateLimitFrame
import InferenceGateway.Orchestrator.ReloadRuns
import InferenceGateway.Orchestrator.CallCounters
import InferenceGateway.Persistence.ConcurrentUpsert
import InferenceGateway.Api.ChatCompletions
import InferenceGateway.Resilience.RateLimitSilence
import InferenceGateway.Orchestrator.SharedBudget
import InferenceGateway.Orchestrator.SkippedBackends
import InferenceGateway.Orchestrator.Lifespan
import InferenceGateway.Orchestrator.LogConstraints
import InferenceGateway.Orchestrator.Cancellation
import InferenceGateway.Orchestrator.Deployment
import InferenceGateway.Routing.LatencySelection
import InferenceGateway.Api.Endpoint
import InferenceGateway.Api.Models
import InferenceGateway.Orchestrator.Draining
import InferenceGateway.Orchestrator.Metrics
import InferenceGateway.Orchestrator.Embeddings
import InferenceGateway.Orchestrator.SharedReservations
import InferenceGateway.Orchestrator.Outage
