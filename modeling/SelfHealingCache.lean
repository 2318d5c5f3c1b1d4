import SelfHealingCache.Node.Resurrection
import SelfHealingCache.Node.AckedWrites
import SelfHealingCache.Router.CrashTolerance
import SelfHealingCache.Router.DeleteEffect
import SelfHealingCache.Cluster.Authenticity
import SelfHealingCache.Cluster.JoiningView
import SelfHealingCache.Cluster.SeedRing
import SelfHealingCache.Common.RingHistory
import SelfHealingCache.Cluster.RingAgreement
import SelfHealingCache.Router.SingleMap
import SelfHealingCache.Node.Authority
import SelfHealingCache.Router.GossipOrder
import SelfHealingCache.Node.RespGrammar
import SelfHealingCache.Node.RespRoundTrip
import SelfHealingCache.Node.RespServer
import SelfHealingCache.Node.RespReplies
import SelfHealingCache.Cluster.Healing
import SelfHealingCache.Common.PreferenceOrder
import SelfHealingCache.Router.AlivePreference
import SelfHealingCache.Node.Forward
import SelfHealingCache.Node.Interfaces
import SelfHealingCache.Node.RespIncremental
import SelfHealingCache.Node.TtlMap
import SelfHealingCache.Node.Expired
import SelfHealingCache.Node.ConcurrentGet
import SelfHealingCache.Cluster.DistinctReplicas
import SelfHealingCache.Cluster.OwnAddresses
import SelfHealingCache.Node.RespPanics
import SelfHealingCache.Node.CommandPanics
import SelfHealingCache.Node.Refutation
import SelfHealingCache.Node.TimeoutSweep
import SelfHealingCache.Cluster.MalformedGossip
import SelfHealingCache.Node.Transfer
import SelfHealingCache.Node.TtlLinearization
import SelfHealingCache.Router.GossipResponse
import SelfHealingCache.Router.TrailingFailures
import SelfHealingCache.Node.SetCommand
import SelfHealingCache.Node.RespProgress
import SelfHealingCache.Cluster.Suspicion
import SelfHealingCache.Cluster.CrashDetection
import SelfHealingCache.Cluster.Dissemination
import SelfHealingCache.Cluster.Lifetimes
import SelfHealingCache.Cluster.Handoff
import SelfHealingCache.Cluster.SteadyRing
import SelfHealingCache.Router.Atomic
import SelfHealingCache.Router.Service
import SelfHealingCache.Node.Atomicity
import SelfHealingCache.Node.Removals
