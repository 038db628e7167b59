import AsioMsg.Lib.Machine
import AsioMsg.StreamReassembly
import AsioMsg.DecodeSafety
import AsioMsg.RequestCompletion
import AsioMsg.ClientRequests
import AsioMsg.ServerOrder
import AsioMsg.BusPublish
import AsioMsg.BusRouting
import AsioMsg.ClientStream
import AsioMsg.FrameConfinement
import AsioMsg.Chunking
import AsioMsg.DecodeWaiting
import AsioMsg.RequestEcho
import AsioMsg.SubscriptionHistory
import AsioMsg.GhostSubscribers
import AsioMsg.SessionFifo
import AsioMsg.ConnectionLoop
import AsioMsg.BufferQueue
import AsioMsg.BusReplies
import AsioMsg.PoolQueue
import AsioMsg.PoolWakeups
import AsioMsg.UnknownFrames
import AsioMsg.RefusedPost
import AsioMsg.MessageIds
import AsioMsg.BusForwarding
import AsioMsg.EncodeLimits
import AsioMsg.SubscribeRequest
import AsioMsg.BusCodec
import AsioMsg.BusEntries
import AsioMsg.HeartbeatChains
import AsioMsg.DecodeTermination
import AsioMsg.FlagSearch
import AsioMsg.HeaderCodec
import AsioMsg.LinkPublish
import AsioMsg.SendReturns
import AsioMsg.PoolShutdown
import AsioMsg.RoomSends
import AsioMsg.Lib.Varint
import AsioMsg.ProtoMessages
import AsioMsg.ProtoEntries
import AsioMsg.ProtoMerge
import AsioMsg.ProtoCanonical
import AsioMsg.ProtoWire
import AsioMsg.ProtoClasses
import AsioMsg.SampleServer
import AsioMsg.LinkProgress
import AsioMsg.BusDelivery
