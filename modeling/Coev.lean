import Coev.Model.Kafka.AsyncProducer
import Coev.Model.Kafka.BalanceStrategy
import Coev.Soundness.Core.ChannelDelivery
import Coev.Soundness.Core.HandOff
import Coev.Soundness.Core.IoWaiting
import Coev.Soundness.Core.LinkedQueues
import Coev.Soundness.Core.PoolAccounting
import Coev.Soundness.Core.TaskGroup
import Coev.Soundness.Core.WakeUpValue
import Coev.Soundness.Http.RequestAssembly
import Coev.Soundness.Kafka.AdminAcknowledgement
import Coev.Soundness.Kafka.AdminRetry
import Coev.Soundness.Kafka.AuthenticatedUse
import Coev.Soundness.Kafka.BrokerRegistry
import Coev.Soundness.Kafka.ClientClosed
import Coev.Soundness.Kafka.CompositeRoundTrip
import Coev.Soundness.Kafka.CompressionRoundTrip
import Coev.Soundness.Kafka.ConsumerClose
import Coev.Soundness.Kafka.ConsumerOffset
import Coev.Soundness.Kafka.CoordinatorBounds
import Coev.Soundness.Kafka.DecoderBounds
import Coev.Soundness.Kafka.ExactTransfer
import Coev.Soundness.Kafka.FeederDelivery
import Coev.Soundness.Kafka.FetchProgress
import Coev.Soundness.Kafka.GroupJoining
import Coev.Soundness.Kafka.InFlight
import Coev.Soundness.Kafka.InitialOffset
import Coev.Soundness.Kafka.Leftovers
import Coev.Soundness.Kafka.MessageRoundTrip
import Coev.Soundness.Kafka.MetadataCache
import Coev.Soundness.Kafka.MetadataFailover
import Coev.Soundness.Kafka.OffsetCommit
import Coev.Soundness.Kafka.PartitionMovements
import Coev.Soundness.Kafka.PartitionOrder
import Coev.Soundness.Kafka.PartitionWatch
import Coev.Soundness.Kafka.Partitioning
import Coev.Soundness.Kafka.PlainAssignment
import Coev.Soundness.Kafka.ProducerIdentity
import Coev.Soundness.Kafka.ProducerLedger
import Coev.Soundness.Kafka.ReadBroker
import Coev.Soundness.Kafka.ReadCommitted
import Coev.Soundness.Kafka.ReassignmentTermination
import Coev.Soundness.Kafka.RecordBatchIntegrity
import Coev.Soundness.Kafka.RecordBatchRoundTrip
import Coev.Soundness.Kafka.RequestContents
import Coev.Soundness.Kafka.RequestFraming
import Coev.Soundness.Kafka.RequestSize
import Coev.Soundness.Kafka.RetryBuffer
import Coev.Soundness.Kafka.SaslExchange
import Coev.Soundness.Kafka.ScopedRefresh
import Coev.Soundness.Kafka.SequenceNumbers
import Coev.Soundness.Kafka.ShutdownCutOff
import Coev.Soundness.Kafka.Stickiness
import Coev.Soundness.Kafka.SubscriptionOwnership
import Coev.Soundness.Kafka.SyncProducer
import Coev.Soundness.Kafka.TaggedFields
import Coev.Soundness.Kafka.TopicErrors
import Coev.Soundness.Kafka.TransactionCommit
import Coev.Soundness.Kafka.TransactionOffsets
import Coev.Soundness.Kafka.TransactionPartitions
import Coev.Soundness.Kafka.TransactionRetry
import Coev.Soundness.Kafka.TransactionStatus
import Coev.Soundness.Kafka.TransportFailure
import Coev.Soundness.Kafka.TwoPassEncoding
import Coev.Soundness.Kafka.UncommittedDelivery
import Coev.Soundness.Kafka.VarintRoundTrip
import Coev.Soundness.Kafka.VersionNegotiation
import Coev.Soundness.Kafka.VersionOrder
import Coev.Soundness.Kafka.VersionRestriction
import Coev.Soundness.Nghttp2.QueryCompletion
import Coev.Soundness.Nghttp2.SendProgress
import Coev.Soundness.Redis.QueryCompletion
import Coev.Soundness.Utils.Crc32
import Coev.Soundness.Utils.Fnv
import Coev.Soundness.Zookeeper.DecodeRobustness
import Coev.Soundness.Zookeeper.FrameReassembly
import Coev.Soundness.Zookeeper.PathValidation
import Coev.Soundness.Zookeeper.ReplyMatching
import Coev.Soundness.Zookeeper.Transaction
import Coev.ToMathlib.ByteString
import Coev.ToMathlib.EStateM
import Coev.ToMathlib.Leb128
import Coev.ToMathlib.Loop
