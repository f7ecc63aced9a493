import GossipRl.Rpc.BufferPoolInv
import GossipRl.Rpc.ResponseFrame
import GossipRl.Rpc.Framing
import GossipRl.Rpc.Traffic
import GossipRl.Rpc.FutureCallbacks
import GossipRl.Rpc.Completions
import GossipRl.Rpc.Listener
import GossipRl.Gossip.Incarnation
import GossipRl.Gossip.Deadlock
import GossipRl.Gossip.Rumours
import GossipRl.Gossip.Suspicion
import GossipRl.Gossip.Aggregation
import GossipRl.Gossip.NewestWins
import GossipRl.Gossip.Agreement
import GossipRl.Training.MergedGradient
import GossipRl.Training.PrivateGradients
import GossipRl.Gossip.WireRoundTrip
import GossipRl.Privacy.SpentPrivacy
import GossipRl.Gossip.TimerEntries
import GossipRl.Gossip.StateNotices
import GossipRl.Gossip.Refutation
import GossipRl.Gossip.ProbeAnswer
import GossipRl.Gossip.PackedUpdates
import GossipRl.Gossip.Dissemination
import GossipRl.Rpc.BufferPoolMemory
import GossipRl.Rpc.SharedMemoryDelivery
import GossipRl.Training.BudgetEnforcement
import GossipRl.Rpc.RingSession
import GossipRl.Rpc.Requests
import GossipRl.Rpc.ServerCounters
import GossipRl.Rpc.OneWay
import GossipRl.Rpc.ResponseFormat
import GossipRl.Training.Returns
import GossipRl.Rpc.Connect
import GossipRl.Training.Replay
import GossipRl.Privacy.Sensitivity
import GossipRl.Privacy.OptimalOrder
import GossipRl.Privacy.NoiseOrder
import GossipRl.Privacy.ScheduleBudget
import GossipRl.Privacy.SigmaSearch
import GossipRl.Privacy.BudgetAllocator
import GossipRl.Privacy.StepCost
import GossipRl.Privacy.LossDistribution
import GossipRl.Training.AccountedUpdates
import GossipRl.Privacy.RecordedSteps
import GossipRl.Privacy.KeptNorms
import GossipRl.Training.Advantages
import GossipRl.Gossip.ErrorFeedback
import GossipRl.Gossip.RandomK
import GossipRl.Gossip.Quantization
import GossipRl.Gossip.SparseAverage
import GossipRl.Gossip.CachedCounters
import GossipRl.Gossip.Backoff
import GossipRl.Gossip.SelectedPeers
import GossipRl.Gossip.PendingProbes
import GossipRl.Gossip.SpreadSuspicion
import GossipRl.Gossip.PlainMessages
import GossipRl.Training.ParameterVectors
import GossipRl.Training.Redpanda
import GossipRl.Rpc.ShortSends
import GossipRl.Rpc.ReceiveArmed
import GossipRl.Rpc.TimedOutCalls
import GossipRl.Rpc.PoolLimits
import GossipRl.Rpc.Services
import GossipRl.Rpc.ConnectionPool
import GossipRl.Rpc.AllOrNothing
import GossipRl.Rpc.SerializedGradients
import GossipRl.Rpc.SerializedItems
import GossipRl.Rpc.RingCounters
import GossipRl.Rpc.CallbackLocks
import GossipRl.Rpc.AtMostOnce
import GossipRl.Rpc.AnsweredCalls
import GossipRl.Gossip.ClusterIncarnations
import GossipRl.Gossip.ClusterDeaths
import GossipRl.Gossip.ClusterProbes
import GossipRl.Gossip.GradientOrigins
import GossipRl.Gossip.AcceptedMessages
import GossipRl.Training.PrioritizedSampling
import GossipRl.Training.SharedReplay
import GossipRl.Training.TrainingPrivacy
