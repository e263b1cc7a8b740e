import QuorumLimiter.Lib.Bucket
import QuorumLimiter.Lib.FaultProc
import QuorumLimiter.Lib.Fixed64
import QuorumLimiter.Lib.Accrual
import QuorumLimiter.Lib.BigEndian
import QuorumLimiter.Lib.BaseText
import QuorumLimiter.Lib.JsonText
import QuorumLimiter.Lib.JsonParser
import QuorumLimiter.Lib.JsonWritten
import QuorumLimiter.Lib.JsonDecode
import QuorumLimiter.Lib.JsonFormat
import QuorumLimiter.Lib.Simulation
import QuorumLimiter.Lib.Voting
import QuorumLimiter.Lib.ReplicatedLog
import QuorumLimiter.Lib.CommitIndex
import QuorumLimiter.Lib.Majority
import QuorumLimiter.Lib.Past
import QuorumLimiter.Lib.TwoRuns
import QuorumLimiter.Lib.Retry
import QuorumLimiter.Lib.Checked
import QuorumLimiter.Lib.Trimming
import QuorumLimiter.Storage.Encoding
import QuorumLimiter.Storage.RaftStore
import QuorumLimiter.Storage.StateStore
import QuorumLimiter.Storage.LogKeys
import QuorumLimiter.Raft.Types
import QuorumLimiter.Raft.Handlers
import QuorumLimiter.Raft.Moves
import QuorumLimiter.Raft.Merging
import QuorumLimiter.Raft.Tracing
import QuorumLimiter.Raft.Receiver
import QuorumLimiter.Raft.Sender
import QuorumLimiter.Raft.ElectionTimer
import QuorumLimiter.Raft.Cluster
import QuorumLimiter.Raft.Turns
import QuorumLimiter.Raft.Identity
import QuorumLimiter.Raft.Votes
import QuorumLimiter.Raft.Election
import QuorumLimiter.Raft.Logs
import QuorumLimiter.Raft.Replication
import QuorumLimiter.Raft.Safety
import QuorumLimiter.Raft.Applying
import QuorumLimiter.Raft.Waiters
import QuorumLimiter.Raft.Walks
import QuorumLimiter.Raft.NextIndex
import QuorumLimiter.Raft.TailCache
import QuorumLimiter.Raft.Ballots
import QuorumLimiter.Raft.Ownership
import QuorumLimiter.Raft.Provenance
import QuorumLimiter.Raft.Linearizable
import QuorumLimiter.Raft.Partition
import QuorumLimiter.Raft.Slices
import QuorumLimiter.Raft.Redelivery
import QuorumLimiter.Raft.BackOff
import QuorumLimiter.Raft.Requests
import QuorumLimiter.Raft.Process
import QuorumLimiter.Raft.Hints
import QuorumLimiter.Raft.CommitLag
import QuorumLimiter.Raft.Timers
import QuorumLimiter.Raft.Traffic
import QuorumLimiter.Raft.Campaign
import QuorumLimiter.Raft.Liveness
import QuorumLimiter.Limiter.Models
import QuorumLimiter.Limiter.CommandJson
import QuorumLimiter.Limiter.Validation
import QuorumLimiter.Limiter.TokenBucket
import QuorumLimiter.Limiter.StateMachine
import QuorumLimiter.Limiter.Effects
import QuorumLimiter.Limiter.Invariants
import QuorumLimiter.Limiter.Keys
import QuorumLimiter.Limiter.Admission
import QuorumLimiter.Limiter.Idempotency
import QuorumLimiter.Limiter.Numeric
import QuorumLimiter.Limiter.Authorization
import QuorumLimiter.Limiter.Replicated
import QuorumLimiter.Auth.ApiKey
import QuorumLimiter.Limiter.Progress
import QuorumLimiter.Limiter.ExactlyOnce
import QuorumLimiter.Limiter.Budget
import QuorumLimiter.Limiter.TwoStores
import QuorumLimiter.Limiter.Isolation
import QuorumLimiter.Limiter.Refill
import QuorumLimiter.Limiter.Coherence
import QuorumLimiter.Limiter.Frame
import QuorumLimiter.Limiter.AuditTrail
import QuorumLimiter.Limiter.Versions
import QuorumLimiter.Limiter.Reference
import QuorumLimiter.Limiter.Retry
import QuorumLimiter.Limiter.Renaming
import QuorumLimiter.Auth.Revocation
import QuorumLimiter.Api.Admin
import QuorumLimiter.Api.InternalRaft
import QuorumLimiter.Api.Rpc
import QuorumLimiter.Api.Availability
import QuorumLimiter.Api.Proposals
import QuorumLimiter.Api.Decision
import QuorumLimiter.Api.EndToEnd
import QuorumLimiter.Dashboard.SignIn
import QuorumLimiter.Dashboard.Forms
import QuorumLimiter.Config.Peers
import QuorumLimiter.Config.Load
import QuorumLimiter.Client.Decide
import QuorumLimiter.Raft.Traffic
