import RedisClient.Basis.Binary64
import RedisClient.Basis.Binary64Forms
import RedisClient.Basis.Binary64Rounding
import RedisClient.Basis.Decimal
import RedisClient.Basis.FixedPoint
import RedisClient.Basis.Lexicographic
import RedisClient.Basis.Loop
import RedisClient.Basis.Outcome
import RedisClient.Basis.PrefixFree
import RedisClient.Basis.Run
import RedisClient.Basis.Tasks
import RedisClient.StandardLibrary
import RedisClient.Errors
import RedisClient.DoubleReading
import RedisClient.Value
import RedisClient.ValueConversion
import RedisClient.ValueNarrowing
import RedisClient.ValueHash
import RedisClient.ValueEquality
import RedisClient.ValueOrder
import RedisClient.ValueConsistency
import RedisClient.Reply
import RedisClient.ReplyRecursion
import RedisClient.ReplyStep
import RedisClient.ReplyEnding
import RedisClient.ReplyTranslation
import RedisClient.Resp
import RedisClient.RespPrefix
import RedisClient.ReplyDecoding
import RedisClient.ReplyRoundTrip
import RedisClient.ValueIntegers
import RedisClient.Message
import RedisClient.MessageDecoding
import RedisClient.ReplyLoop
import RedisClient.DecodedReplies
import RedisClient.Command
import RedisClient.CommandFraming
import RedisClient.CommandTokens
import RedisClient.CommandSplitting
import RedisClient.CommandWriting
import RedisClient.CommandBuilders
import RedisClient.CommandOverloads
import RedisClient.CommandTtl
import RedisClient.HashRoundTrip
import RedisClient.Frame
import RedisClient.Socket
import RedisClient.FrameLanding
import RedisClient.FrameReach
import RedisClient.FrameAdequacy
import RedisClient.FrameResp
import RedisClient.ReplyLocality
import RedisClient.ReplyContainment
import RedisClient.ReplyReporting
import RedisClient.ReplySoundness
import RedisClient.ReplyTruncation
import RedisClient.ReplyNulls
import RedisClient.ReplyNodes
import RedisClient.ReplyDepth
import RedisClient.ReplyValues
import RedisClient.Client
import RedisClient.ClientPool
import RedisClient.PipelineAnswers
import RedisClient.WholeReplies
import RedisClient.ServedPipelines
import RedisClient.Authentication
import RedisClient.Credentials
import RedisClient.ConnectionRuns
import RedisClient.ConnectionExchanges
import RedisClient.PooledCalls
import RedisClient.Subscriber
import RedisClient.SubscriberDelivery
import RedisClient.SubscriberConnection
import RedisClient.SubscriberAttempts
import RedisClient.SubscriberWaiting
import RedisClient.SubscriberConnecting
import RedisClient.SubscriberMachine
import RedisClient.SubscriberLifecycle
import RedisClient.SubscriberStopping
import RedisClient.SubscriberQueue
import RedisClient.SubscriberStream
import RedisClient.SubscriberRefinement
import RedisClient.SubscriberProgress
import RedisClient.SubscriberShutdown
import RedisClient.SubscriberReturning
import RedisClient.DoublePrinting
import RedisClient.DoubleRoundTrip
import RedisClient.CommandCatalogue
