import QuePaxa.Core.DurableFile
import QuePaxa.Core.DurableRecorder
import QuePaxa.Core.FileRecorderStore
import QuePaxa.Core.FrontierDecision
import QuePaxa.Core.JointQuorum
import QuePaxa.Core.Membership
import QuePaxa.Core.MembershipCommand
import QuePaxa.Core.MinimumQuorum
import QuePaxa.Core.PrioritySource
import QuePaxa.Core.Proposer
import QuePaxa.Core.ProposerSpec
import QuePaxa.Core.QuorumCollection
import QuePaxa.Core.QuorumIntersection
import QuePaxa.Core.Recorder
import QuePaxa.Core.RecorderHandle
import QuePaxa.Core.RecorderMonotone
import QuePaxa.Core.RecorderReach
import QuePaxa.Core.RecorderRestart
import QuePaxa.Core.RecorderSpec
import QuePaxa.Core.Redelivery
import QuePaxa.Core.Register
import QuePaxa.Core.RegisterHistory
import QuePaxa.Core.RegisterSummary
import QuePaxa.Core.Replica
import QuePaxa.Core.ReplicaClaims
import QuePaxa.Core.ReplicaCommit
import QuePaxa.Core.ReplicaFrontier
import QuePaxa.Core.ReplicaOrder
import QuePaxa.Core.ReplicaPipeline
import QuePaxa.Core.ReplicaRestart
import QuePaxa.Core.ReplicaSpec
import QuePaxa.Core.Transitions
import QuePaxa.Core.Types
import QuePaxa.Library.Averages
import QuePaxa.Library.Checks
import QuePaxa.Library.CrashRecovery
import QuePaxa.Library.Delivery
import QuePaxa.Library.FileSystem
import QuePaxa.Library.FirstArrivals
import QuePaxa.Library.Interruption
import QuePaxa.Library.IntervalHistory
import QuePaxa.Library.Journal
import QuePaxa.Library.KeyedLocks
import QuePaxa.Library.Ledger
import QuePaxa.Library.Loops
import QuePaxa.Library.Mutation
import QuePaxa.Library.OrderedMap
import QuePaxa.Library.Percentiles
import QuePaxa.Library.PrefixCode
import QuePaxa.Library.RegisterRounds
import QuePaxa.Library.Replay
import QuePaxa.Library.Runs
import QuePaxa.Library.Sampling
import QuePaxa.Library.Thresholds
import QuePaxa.Network.Cancellation
import QuePaxa.Network.Changes
import QuePaxa.Network.Checkpoint
import QuePaxa.Network.Coverage
import QuePaxa.Network.Deduplication
import QuePaxa.Network.Deployment
import QuePaxa.Network.DurableSnapshot
import QuePaxa.Network.Epochs
import QuePaxa.Network.ExactlyOnce
import QuePaxa.Network.Execution
import QuePaxa.Network.FailedSections
import QuePaxa.Network.FileExecutor
import QuePaxa.Network.FileMaps
import QuePaxa.Network.GapFilling
import QuePaxa.Network.Installing
import QuePaxa.Network.Node
import QuePaxa.Network.NodeRuntime
import QuePaxa.Network.PersistBeforePropose
import QuePaxa.Network.SafetyAlarms
import QuePaxa.Network.Sections
import QuePaxa.Network.Serving
import QuePaxa.Network.Settled
import QuePaxa.Network.Soundness
import QuePaxa.Network.StaleDecisions
import QuePaxa.Network.StateTransfer
import QuePaxa.Network.ValueFetching
import QuePaxa.Network.Wire
import QuePaxa.Protocol.Agreement
import QuePaxa.Protocol.Anchoring
import QuePaxa.Protocol.Answers
import QuePaxa.Protocol.Availability
import QuePaxa.Protocol.Concluding
import QuePaxa.Protocol.Conclusive
import QuePaxa.Protocol.Consistency
import QuePaxa.Protocol.Delivery
import QuePaxa.Protocol.Effects
import QuePaxa.Protocol.History
import QuePaxa.Protocol.Proposing
import QuePaxa.Protocol.Provenance
import QuePaxa.Protocol.Reconfiguration
import QuePaxa.Protocol.ReplicatedLog
import QuePaxa.Protocol.Termination
import QuePaxa.Protocol.Unopposed
import QuePaxa.Protocol.Validity
import QuePaxa.Protocol.World
import QuePaxa.Runtime.Announcement
import QuePaxa.Runtime.Checkpoint
import QuePaxa.Runtime.Deployment
import QuePaxa.Runtime.Durability
import QuePaxa.Runtime.Execution
import QuePaxa.Runtime.HedgeDelay
import QuePaxa.Runtime.Lifetimes
import QuePaxa.Runtime.Moves
import QuePaxa.Runtime.PersistBeforePropose
import QuePaxa.Runtime.Policies
import QuePaxa.Runtime.PollTermination
import QuePaxa.Runtime.Process
import QuePaxa.Runtime.Quiet
import QuePaxa.Runtime.Ranking
import QuePaxa.Runtime.RankingLog
import QuePaxa.Runtime.Restart
import QuePaxa.Runtime.Runtime
import QuePaxa.Runtime.Schedule
import QuePaxa.Runtime.ScheduleAgreement
import QuePaxa.Runtime.ScheduleDeadlines
import QuePaxa.Runtime.ScheduleHistory
import QuePaxa.Runtime.ScheduleReach
import QuePaxa.Runtime.ScheduleSpec
import QuePaxa.Runtime.Settled
import QuePaxa.Runtime.WriteAhead
