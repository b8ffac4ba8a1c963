import WebAudit.Billing.Idempotence
import WebAudit.Billing.OneRenewal
import WebAudit.Billing.Signature
import WebAudit.Credits.Expiry
import WebAudit.Scans.Refunds
import WebAudit.Orchestrator.Winners
import WebAudit.Orchestrator.Faults
import WebAudit.Safety.Fence
import WebAudit.Safety.Revocation
import WebAudit.Safety.Checkpoint
import WebAudit.Execution.Fencing
import WebAudit.Execution.Effects
import WebAudit.Orchestrator.Questionnaire
import WebAudit.Scans.Late
import WebAudit.Orchestrator.Redelivery
import WebAudit.Auth.Sessions
import WebAudit.Auth.Links
import WebAudit.Redaction.Fragments
import WebAudit.Redaction.Independence
import WebAudit.Issues.History
import WebAudit.Redaction.Evidence
import WebAudit.Intake.Limits
import WebAudit.Runner.Containment
import WebAudit.Runner.Score
import WebAudit.Runner.Stored
import WebAudit.Registry.Drift
import WebAudit.Auth.Ownership
import WebAudit.Storage.Progress
import WebAudit.Queue.Admission
import WebAudit.Runner.Egress
import WebAudit.Realtime.Order
import WebAudit.ControlGate.Control
import WebAudit.Workspace.Source
import WebAudit.Storage.Artifacts
import WebAudit.Registry.Installed
import WebAudit.Storage.Telemetry
import WebAudit.Workspace.Lifecycle
import WebAudit.Execution.Blocking
import WebAudit.Planning.CriticalPath
import WebAudit.Planning.Resolver
import WebAudit.Execution.Passive
import WebAudit.Execution.Endings
import WebAudit.Authorization.Narrow
import WebAudit.Credits.Exact
import WebAudit.Runner.Encoding
import WebAudit.Archive.Canonical
import WebAudit.Readiness.Verdict
import WebAudit.Realtime.Sources
import WebAudit.SafeNet.Address
import WebAudit.ControlGate.RateBound
import WebAudit.Archive.RoundTrip
import WebAudit.Billing.Refunds
import WebAudit.Workspace.Teardown
import WebAudit.Workspace.Reads
import WebAudit.Runner.Judgments
import WebAudit.Capabilities.Cookies
import WebAudit.Runner.Conformance
import WebAudit.Monitoring.CostAlerts
import WebAudit.Safety.Watcher
import WebAudit.Ai.Executor
