import OvsSgx.Lib.BitScan
import OvsSgx.Lib.ChainMap
import OvsSgx.Lib.IndexedHeap
import OvsSgx.Lib.RankedList
import OvsSgx.Lib.LinkedRing
import OvsSgx.Hash
import OvsSgx.Flow
import OvsSgx.FlowTheorems
import OvsSgx.Hmap
import OvsSgx.Classifier
import OvsSgx.ClassifierInvariant
import OvsSgx.ClassifierTheorems
import OvsSgx.ClassifierLookup
import OvsSgx.MetaFlow
import OvsSgx.Heap
import OvsSgx.Enclave
import OvsSgx.EnclaveTheorems
import OvsSgx.EnclaveRuns
import OvsSgx.OftableTheorems
import OvsSgx.ShadowMap
import OvsSgx.EvictionInvariant
import OvsSgx.EvictionTheorems
import OvsSgx.EvictionRuns
import OvsSgx.AddFlowTheorems
import OvsSgx.OfprotoEvictTheorems
import OvsSgx.EvictionReachable
import OvsSgx.Ofproto
import OvsSgx.OfprotoTheorems
import OvsSgx.OfprotoInvariant
import OvsSgx.AddFlowBackOut
import OvsSgx.AddFlowOutcome
import OvsSgx.OfprotoFlushTheorems
import OvsSgx.OfprotoDeletions
import OvsSgx.OfprotoRuns
import OvsSgx.AddFlowAtomic
import OvsSgx.FlushRefinement
import OvsSgx.Hotcall
import OvsSgx.HotcallHandshake
import OvsSgx.CallTable
import OvsSgx.Stubs
import OvsSgx.Dispatch
import OvsSgx.HotcallBatching
import OvsSgx.Taggable
import OvsSgx.Bridges
import OvsSgx.TlsSessions
import OvsSgx.SealedResources
import OvsSgx.Lib.PagedScan
import OvsSgx.BufferedReads
import OvsSgx.CollectRules
import OvsSgx.CollectRulesTheorems
import OvsSgx.ConfigureTable
import OvsSgx.ConfigureTableTheorems
import OvsSgx.TableFrames
import OvsSgx.FlowCache
import OvsSgx.FlowCacheTheorems
import OvsSgx.Revalidation
import OvsSgx.EvictSelection
import OvsSgx.EvictDryRun
import OvsSgx.AddFlowPostcondition
import OvsSgx.Lib.BlockCursor
import OvsSgx.ClsCursor
import OvsSgx.FlushPostcondition
import OvsSgx.FlowStats
import OvsSgx.PagedCollection
import OvsSgx.FlowStatsTheorems
import OvsSgx.ModifyFlows
import OvsSgx.ModifyFlowsTheorems
import OvsSgx.TlsCredentials
import OvsSgx.FiledDeletions
import OvsSgx.PendingDeletions
import OvsSgx.DeletionSerialisation
import OvsSgx.RevalidationTheorems
import OvsSgx.SubtableLifetime
import OvsSgx.UnsubmittedGroups
import OvsSgx.TaggedOfproto
import OvsSgx.TaggedPointers
import OvsSgx.TaggedRuns
import OvsSgx.StoredPriorities
import OvsSgx.BridgePriorities
import OvsSgx.RuleExpiration
import OvsSgx.EvictionOrder
import OvsSgx.PendingAdditions
import OvsSgx.VlanOnAdd
import OvsSgx.VlanOnAddTheorems
import OvsSgx.ClassifierSearch
import OvsSgx.EvictionChoice
import OvsSgx.FlowCacheRuns
import OvsSgx.FlowCacheReplacement
import OvsSgx.VlanUsage
import OvsSgx.CompletionFrames
import OvsSgx.OfprotoSteps
import OvsSgx.RuleMatches
import OvsSgx.MatchingTables
import OvsSgx.Lib.CString
import OvsSgx.CaServer
import OvsSgx.TableNames
import OvsSgx.Lib.ByteBits
import OvsSgx.EvictionGrouping
import OvsSgx.FlowCompression
import OvsSgx.Lib.PointerChain
import OvsSgx.SharedMemory
import OvsSgx.SharedHmap
import OvsSgx.SharedHmapTheorems
import OvsSgx.SharedHmapPages
import OvsSgx.Lib.BitFill
import OvsSgx.SharedHmapRuns
import OvsSgx.OperationRuns
import OvsSgx.OperationDrain
import OvsSgx.ShadowLifecycle
import OvsSgx.Lib.Mailbox
import OvsSgx.Connections
import OvsSgx.ConnectionSteps
import OvsSgx.FlowModCalls
import OvsSgx.ConnectionRuns
import OvsSgx.ConnectionTheorems
import OvsSgx.ConnectionWakeups
import OvsSgx.AggregateStats
import OvsSgx.FlowMonitors
import OvsSgx.MonitorRequests
import OvsSgx.MonitoredBridge
import OvsSgx.EvictRefinement
