import BoostAsio.Core.System.Run
import BoostAsio.Core.System.WaitFor
import BoostAsio.Core.System.History
import BoostAsio.Core.System.Mutex
import BoostAsio.Core.System.Ownership
import BoostAsio.Core.System.Pool
import BoostAsio.Core.System.Ranking
import BoostAsio.Core.System.Component
import BoostAsio.Core.ErrorCode
import BoostAsio.Core.Stream.IStream
import BoostAsio.Core.Stream.Numeral
import BoostAsio.Client.Async.State
import BoostAsio.Client.Async.Step
import BoostAsio.Client.Async.Locking
import BoostAsio.Client.Async.Deadlock
import BoostAsio.Client.Async.Custody
import BoostAsio.Client.Async.Registry
import BoostAsio.Client.Async.Completion
import BoostAsio.Client.Async.Cancellation
import BoostAsio.Client.Async.Results
import BoostAsio.Client.Async.Verdict
import BoostAsio.Client.Async.Response
import BoostAsio.Client.Async.Close
import BoostAsio.Client.Async.Termination
import BoostAsio.Client.Async.History
import BoostAsio.Client.Async.Eviction
import BoostAsio.Client.Async.LostCancellation
import BoostAsio.Core.Stream.ReadUntil
import BoostAsio.Core.Stream.ReadWithin
import BoostAsio.Core.Stream.Completion
import BoostAsio.Http.Message
import BoostAsio.Http.Request.Handlers
import BoostAsio.Http.Request.Stages
import BoostAsio.Http.Request.HeaderLines
import BoostAsio.Core.Stream.Words
import BoostAsio.Http.Request.StatusLine
import BoostAsio.Http.Encoding
import BoostAsio.Http.Request.RoundTrip
import BoostAsio.Http.Request.Acceptance
import BoostAsio.Http.Request.StatusPart
import BoostAsio.Http.Request.BlankLine
import BoostAsio.Http.Request.Chunks
import BoostAsio.Http.Request.Boundary
import BoostAsio.Http.Request.State
import BoostAsio.Http.Request.Step
import BoostAsio.Http.Request.Locking
import BoostAsio.Http.Request.Schedule
import BoostAsio.Http.Request.Notification
import BoostAsio.Http.Request.Cancellation
import BoostAsio.Http.Request.LostCancellation
import BoostAsio.Http.Request.Reuse
import BoostAsio.Http.Request.Refinement
import BoostAsio.Http.Request.Pipeline
import BoostAsio.Http.Request.Delivery
import BoostAsio.Http.Request.Progress
import BoostAsio.Http.Client
import BoostAsio.Http.Service.Handlers
import BoostAsio.Http.Service.RequestLine
import BoostAsio.Http.Service.State
import BoostAsio.Http.Service.Lifecycle
import BoostAsio.Server.Async.State
import BoostAsio.Server.Async.Step
import BoostAsio.Server.Async.Ownership
import BoostAsio.Server.Async.Acceptor
import BoostAsio.Server.Async.Writing
import BoostAsio.Server.Async.Connection
import BoostAsio.Server.Async.Lifecycle
import BoostAsio.Server.Async.Shutdown
import BoostAsio.Server.Async.Termination
import BoostAsio.Http.Service.Agreement
import BoostAsio.Http.Service.FileAnswer
import BoostAsio.Http.Service.HeaderMap
import BoostAsio.Http.Service.Response
import BoostAsio.Http.Service.Reply
import BoostAsio.Http.Service.Root
import BoostAsio.Core.Stream.Cuts
import BoostAsio.Http.Request.RequestText
import BoostAsio.Http.Request.Dialogue
import BoostAsio.Http.Request.StatusCode
import BoostAsio.Http.Request.StrayLines
import BoostAsio.Client.Sync.Tcp
import BoostAsio.Client.Sync.Udp
import BoostAsio.Core.Transfer
import BoostAsio.Io.Buffer
import BoostAsio.Io.Write
import BoostAsio.Io.Read
import BoostAsio.Core.Channel
import BoostAsio.Core.Wire
import BoostAsio.Core.Talk
import BoostAsio.Core.Exchange
import BoostAsio.Io.HalfClose
import BoostAsio.Server.Sync.ThreadPerClient
import BoostAsio.Client.RequestLanguage
import BoostAsio.Server.Sync.Sequential
import BoostAsio.Server.Sync.Order
import BoostAsio.Http.Service.HeaderLoop
import BoostAsio.Http.Exchange
import BoostAsio.Async.Answer
import BoostAsio.Core.Answerable
import BoostAsio.Server.Sync.Concurrent
