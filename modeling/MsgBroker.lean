import MsgBroker.Analysis.FanoutFailure
import MsgBroker.Analysis.FanoutErrors
import MsgBroker.Analysis.PubRetention
import MsgBroker.Analysis.PubOffers
import MsgBroker.Analysis.PubPriority
import MsgBroker.Analysis.Subscriptions
import MsgBroker.Analysis.SubDelivery
import MsgBroker.Analysis.RotorFairness
import MsgBroker.Analysis.ReqRepCorrelation
import MsgBroker.Analysis.SendAgain
import MsgBroker.Analysis.StreamFifo
import MsgBroker.Analysis.SurveyIsolation
import MsgBroker.Analysis.SurveyDeadline
import MsgBroker.Analysis.SwsOutput
import MsgBroker.Analysis.SwsTermination
import MsgBroker.Analysis.SwsWritable
import MsgBroker.Analysis.LingerReport
import MsgBroker.Analysis.TeardownSafety
import MsgBroker.Analysis.SwsSizes
import MsgBroker.Analysis.Descriptors
import MsgBroker.Analysis.GlobalTeardown
import MsgBroker.Analysis.RingReplicas
import MsgBroker.Analysis.GossipTimeouts
import MsgBroker.Analysis.ClusterRouting
import MsgBroker.Analysis.ClusterViews
import MsgBroker.Analysis.GossipLiveness
import MsgBroker.Analysis.MsgQueueRuns
import MsgBroker.Analysis.SlabReuse
import MsgBroker.Analysis.ChunkTrim
import MsgBroker.Analysis.ChunkrefResize
import MsgBroker.Analysis.MessageRefs
import MsgBroker.Analysis.ConnBalance
import MsgBroker.Analysis.EpErrors
import MsgBroker.Analysis.Backpressure
import MsgBroker.Analysis.WsHandshake
import MsgBroker.Analysis.MsghdrRoundTrip
import MsgBroker.Analysis.NetAddr
import MsgBroker.Analysis.ArenaRegions
import MsgBroker.Analysis.Backoff
import MsgBroker.Analysis.InprocPollin
import MsgBroker.Analysis.InprocJoin
import MsgBroker.Analysis.CoroutineCurrent
import MsgBroker.Analysis.HashTable
import MsgBroker.Analysis.ThreadpoolDispatch
import MsgBroker.Analysis.TimersetTick
import MsgBroker.Analysis.MpscFifo
import MsgBroker.Analysis.EvloopPolls
import MsgBroker.Analysis.Pipeline
import MsgBroker.Analysis.Connector
import MsgBroker.Analysis.Poll
