import Cognos.Lib.AssocMap
import Cognos.Lib.Base64
import Cognos.Lib.Broadcast
import Cognos.Lib.Codecs
import Cognos.Lib.Decimal
import Cognos.Lib.FloatText
import Cognos.Lib.Frame
import Cognos.Lib.HashChain
import Cognos.Lib.Json.Record
import Cognos.Lib.LexPath
import Cognos.Lib.Run
import Cognos.Lib.Separated
import Cognos.Lib.Sha256
import Cognos.Lib.Text
import Cognos.Lib.Uuid
import Cognos.Hal.PathPolicy
import Cognos.Hal.FailClosed
import Cognos.Hal.AuditClones
import Cognos.Hal.AuditTamper
import Cognos.Hal.SharedAudit
import Cognos.Hal.GovernanceKernel
import Cognos.Hal.MetaGovernance
import Cognos.AgentIpc.HashCoverage
import Cognos.AgentIpc.Impersonation
import Cognos.AgentIpc.Replay
import Cognos.Grpc.EnvelopeMac
import Cognos.Grpc.PythonToken
import Cognos.Orchestrator.DispatchSafety
import Cognos.Orchestrator.GateCoverage
import Cognos.System.ApprovalPath
import Cognos.System.Dialog
import Cognos.System.TwoGates
import Cognos.Lib.Digraph
import Cognos.Orchestrator.Effects
import Cognos.Orchestrator.Submitted
import Cognos.Orchestrator.Acts
import Cognos.Orchestrator.Cancel
import Cognos.Orchestrator.ExecutesPlan
import Cognos.Orchestrator.QueueOrder
import Cognos.Orchestrator.Executor
import Cognos.Lib.FloatUnit
import Cognos.Lib.Json.Number
import Cognos.IntentEngine.AcceptedIntents
import Cognos.Lib.Gbnf
import Cognos.Lib.GbnfJson
import Cognos.Lib.JsonSchema
import Cognos.IntentEngine.LlmOutputSchema
import Cognos.IntentEngine.Grammar
import Cognos.Lib.Kahn
import Cognos.Lib.StableSort
import Cognos.IntentEngine.Disambiguation
import Cognos.Orchestrator.GraphPlan
import Cognos.Orchestrator.GrantedRun
import Cognos.Orchestrator.GraphRuns
import Cognos.System.GraphTransfer
import Cognos.System.CandidateRun
import Cognos.Lib.Tiling
import Cognos.Memory.Anfs
import Cognos.Memory.SecurePool
import Cognos.Lib.Lines
import Cognos.Memory.IndexQueue
import Cognos.Hal.AuthorityCompressor
import Cognos.Lib.PyValue
import Cognos.Lib.Traced
import Cognos.Agents.FileAgent
import Cognos.Agents.Coordinator
import Cognos.Agents.CodingAgent
import Cognos.Lib.IgnoreCase
import Cognos.Lib.BinaryHeap
import Cognos.Hal.RestraintModel
import Cognos.Scheduler.Restraint
import Cognos.System.TwoRestraints
import Cognos.Hal.HomeConfinement
import Cognos.AgentIpc.Registration
import Cognos.Cluster.Quorum
import Cognos.IntentEngine.LearnedChoice
import Cognos.Orchestrator.Wiring
import Cognos.Orchestrator.GraphEdges
import Cognos.Orchestrator.HeapScheduler
import Cognos.Orchestrator.InFlight
import Cognos.Orchestrator.Status
import Cognos.Lib.KahnPair
import Cognos.IntentEngine.ExecutionOrder
import Cognos.Lib.Lru
import Cognos.IntentEngine.KvCache
import Cognos.IntentEngine.Parser
import Cognos.IntentEngine.Choice
import Cognos.Lib.ByteIndex
import Cognos.IntentEngine.Fallback
import Cognos.IntentEngine.KeywordBackend
import Cognos.System.TwoClassifiers
import Cognos.Lib.Json.Natural
import Cognos.Lib.Json.Pretty
import Cognos.Lib.Json.Exact
import Cognos.Lib.FloatDifference
import Cognos.Lib.FloatOrder
import Cognos.AgentIpc.TimestampWindow
import Cognos.Hal.AuditChain
import Cognos.Hal.ChainExport
import Cognos.Hal.AuditReread
import Cognos.Hal.Calibration
import Cognos.Hal.CalibrationRuns
import Cognos.Hal.AutonomyController
import Cognos.IntentEngine.KeywordAnswers
import Cognos.Lib.Volume
import Cognos.Lib.BufWriter
import Cognos.Hal.AuditDisk
import Cognos.Hal.AuditLoss
import Cognos.Hal.AuditWipe
import Cognos.Lib.Components
import Cognos.Lib.PathWalk
import Cognos.Lib.Json.Prefix
import Cognos.AgentIpc.Isolation
import Cognos.AgentIpc.StaleSweep
import Cognos.AgentIpc.Interceptor
import Cognos.Memory.Indexer
import Cognos.Memory.IndexScope
import Cognos.Memory.DomainWipe
import Cognos.Memory.OverlayRead
import Cognos.Memory.MetaBatch
import Cognos.Memory.AnfsCache
import Cognos.Agents.SiblingRoots
import Cognos.Mesh.AgentTopology
import Cognos.Lib.LatestMax
import Cognos.Lib.PyNumber
import Cognos.Hal.CognitiveFirewall
import Cognos.Hal.ExistentialGovernor
import Cognos.Hal.PolicyEngine
import Cognos.Hal.RestraintRuntime
import Cognos.Hal.ScoreFusion
import Cognos.Scheduler.Daemon
import Cognos.Scheduler.Hysteresis
import Cognos.Agents.Conflicts
import Cognos.Agents.HandleIntent
import Cognos.Cli.ApprovalWatch
import Cognos.Cli.WatchedDialogs
import Cognos.Lib.PyLines
import Cognos.Lib.UnitClamp
import Cognos.Hal.RecursionLimiter
import Cognos.Hal.ReputationEngine
import Cognos.Hal.TemporalTrust
import Cognos.Hal.ForensicReplay
import Cognos.Hal.RecursiveIdentity
import Cognos.Hal.ContinuityEngine
import Cognos.Unipkg.TrustScorer
import Cognos.Llm.ModelPool
import Cognos.Memory.Relationship
import Cognos.Agents.IndexerLoop
import Cognos.Lib.Tumbling
import Cognos.Kernel.AnomalyGuard
import Cognos.Agents.IpcClient
import Cognos.Agents.IpcTasks
import Cognos.Agents.FileTask
import Cognos.Lib.Recent
import Cognos.Hypervisor.VmScheduler
import Cognos.Llm.Context
import Cognos.Hal.BehavioralModel
import Cognos.IntentEngine.HttpBackend
import Cognos.Memory.AnfsOverlay
import Cognos.Lib.FloatNan
import Cognos.Lib.Latch
import Cognos.Hal.RuntimeState
import Cognos.System.PipelineMetrics
import Cognos.Grpc.Runtime
import Cognos.Lib.Regex
import Cognos.Agents.SecurityAgent
import Cognos.Mesh.StateSync
import Cognos.Grpc.Server
import Cognos.System.Endpoints
