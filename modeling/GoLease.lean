import GoLease.Errors
import GoLease.Backend
import GoLease.Base64
import GoLease.Utf8
import GoLease.Key
import GoLease.Policy
import GoLease.Traces
import GoLease.Pool
import GoLease.Handle
import GoLease.Client
import GoLease.Retry
import GoLease.Arithmetic
import GoLease.Lifecycle
import GoLease.Identity
import GoLease.Deadlines
import GoLease.Renewal
import GoLease.Observation
import GoLease.AdmissionBound
import GoLease.Capacity.Site
import GoLease.Capacity.Progress
import GoLease.Capacity.Client
import GoLease.Capacity.Accounting
import GoLease.Memory.Store
import GoLease.Memory.History
import GoLease.Memory.Reference
import GoLease.Memory.Superseded
import GoLease.Memory.Isolation
import GoLease.Honest
import GoLease.Fleet
import GoLease.FleetSteps
import GoLease.World
import GoLease.ReleaseWindow
import GoLease.Coverage
import GoLease.Admission
import GoLease.Keepalive.Anchored
import GoLease.Keepalive.Renewer
import GoLease.Keepalive.Run
import GoLease.Guard
import GoLease.StopRelease
import GoLease.Orchestration.Run
import GoLease.Orchestration.Renewal
import GoLease.Orchestration.Invariant
import GoLease.Orchestration.Outcome
import GoLease.Orchestration.Release
import GoLease.Orchestration.Progress
import GoLease.Orchestration.Refinement
import GoLease.Overlap.System
import GoLease.Overlap.Certificate
import GoLease.Postgres.Database
import GoLease.Postgres.Fences
import GoLease.Postgres.Store
import GoLease.Postgres.Responses
import GoLease.Postgres.Outcomes
import GoLease.Postgres.Ownership
import GoLease.Postgres.Simulation
import GoLease.Postgres.Cleanup
import GoLease.Postgres.Concurrent
import GoLease.Postgres.Isolation.Server
import GoLease.Postgres.Isolation.Releases
import GoLease.Postgres.Isolation.Effects
import GoLease.Postgres.Isolation.Steps
import GoLease.Postgres.Isolation.Linear
import GoLease.Postgres.Isolation.Tokens
import GoLease.Postgres.Isolation.Progress
import GoLease.Service.Manager
import GoLease.Service.Accounting
import GoLease.Service.Progress
import GoLease.Decimal
import GoLease.Valkey.Server
import GoLease.Valkey.Store
import GoLease.Valkey.Inspection
import GoLease.Valkey.Outcomes
import GoLease.Valkey.Slots
import GoLease.Valkey.Replies
import GoLease.Valkey.Ownership
import GoLease.Valkey.Simulation
import GoLease.Valkey.Wire
import GoLease.Lossy.History
import GoLease.Lossy.Calls
import GoLease.Lossy.Stores
import GoLease.Lossy.Answers
import GoLease.Observed.Backend
import GoLease.Observed.Transparency
import GoLease.Observed.Callbacks
import GoLease.Truncation
import GoLease.Remote
import GoLease.Owners
import GoLease.Redaction.Texts
import GoLease.Redaction.Run
import GoLease.Availability.Lapsing
import GoLease.Availability.Stores
import GoLease.Availability.Waiting
import GoLease.Postgres.Contested.System
import GoLease.Postgres.Contested.Secured
import GoLease.Postgres.Contested.Commits
import GoLease.Postgres.Contested.Invariant
import GoLease.Postgres.Contested.Serve
import GoLease.Postgres.Contested.Exclusive
import GoLease.Fencing
import GoLease.Protected
import GoLease.Exhaustion
