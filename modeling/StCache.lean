import StCache.Cluster.Cluster
import StCache.Cluster.Convergence
import StCache.Cluster.Evidence
import StCache.Cluster.Flood
import StCache.Cluster.Origins
import StCache.Cluster.Provenance
import StCache.Cluster.Publication
import StCache.Cluster.RateLimit
import StCache.Cluster.Silence
import StCache.Cluster.Traffic
import StCache.Detector.Collection
import StCache.Detector.Detector
import StCache.Detector.History
import StCache.Detector.IntDetector
import StCache.Detector.IntWindow
import StCache.Detector.ScavengePass
import StCache.Detector.ScavengeRace
import StCache.Detector.Verifier
import StCache.Detector.Windowed
import StCache.Framework.Backoff
import StCache.Framework.Ballots
import StCache.Framework.Clock
import StCache.Framework.CyclicBuffer
import StCache.Framework.GoMap
import StCache.Framework.Json
import StCache.Framework.JsonText
import StCache.Framework.JsonValue
import StCache.Framework.LastWrite
import StCache.Framework.Links
import StCache.Framework.Majority
import StCache.Framework.Runs
import StCache.Framework.RwLock
import StCache.Framework.ShellTokens
import StCache.Framework.Strconv
import StCache.Framework.Strtok
import StCache.Framework.Tokens
import StCache.Framework.Traces
import StCache.Framework.TransmitPacket
import StCache.Framework.TransmitQueue
import StCache.Framework.Utf8
import StCache.Framework.WallClock
import StCache.Gossip.Delegate
import StCache.Gossip.Outgoing
import StCache.Gossip.OwnReports
import StCache.Gossip.Sender
import StCache.Gossip.Transmission
import StCache.Gossip.Wire
import StCache.Lamport.Clock
import StCache.Leader.Alternation
import StCache.Leader.Delivery
import StCache.Leader.Leader
import StCache.Leader.SilentFlip
import StCache.Leader.Timely
import StCache.Leader.WriteFlag
import StCache.Lru.Invariant
import StCache.Lru.Lru
import StCache.Lru.Order
import StCache.Lru.Recency
import StCache.Lru.Refinement
import StCache.Members.Configuration
import StCache.Members.Consensus
import StCache.Members.Election
import StCache.Members.ElectionMembers
import StCache.Members.ElectionSafety
import StCache.Members.ElectionSteps
import StCache.Members.GossipJoin
import StCache.Members.Membership
import StCache.Members.Raft
import StCache.Pool.Gpool
import StCache.Pool.Notification
import StCache.Pool.Notifier
import StCache.Pool.Progress
import StCache.Pool.ShellCalls
import StCache.Pool.Verification
import StCache.Quorum.Checker
import StCache.Quorum.CommandLine
import StCache.Quorum.Decision
import StCache.Quorum.Due
import StCache.Quorum.Eligible
import StCache.Quorum.EventTimes
import StCache.Quorum.Pacing
import StCache.Quorum.Shell
import StCache.Quorum.Steps
import StCache.Quorum.Verdict
import StCache.Store.Acceptance
import StCache.Store.Cache
import StCache.Store.Codec
import StCache.Store.CopyLocks
import StCache.Store.Fields
import StCache.Store.Fsm
import StCache.Store.GossipCache
import StCache.Store.Http
import StCache.Store.Interleaving
import StCache.Store.LatePersist
import StCache.Store.Readers
import StCache.Store.ReplicaAgreement
import StCache.Store.Scavenger
import StCache.Store.Snapshot
import StCache.Store.Views
import StCache.Supervisor.Arguments
import StCache.Supervisor.Hypervisor
