import ImageServer.Lib.CharArray
import ImageServer.Lib.CString
import ImageServer.Lib.SqlText
import ImageServer.Lib.Path
import ImageServer.Lib.Transition
import ImageServer.Lib.LinkedList
import ImageServer.Lib.RingBuffer
import ImageServer.Lib.Monitor
import ImageServer.Lib.Broadcast
import ImageServer.Lib.Mutex
import ImageServer.Http.Handler
import ImageServer.Http.Parse
import ImageServer.Http.ResumeLine
import ImageServer.Http.Grammar
import ImageServer.Http.ParseText
import ImageServer.Http.RequestLine
import ImageServer.Http.Acceptance
import ImageServer.Http.HeaderValues
import ImageServer.Http.ContentLength
import ImageServer.Http.Accepted
import ImageServer.Http.Judgement
import ImageServer.Http.DoRequest
import ImageServer.Http.Resolve
import ImageServer.Http.Accounts
import ImageServer.Http.SqlStatement
import ImageServer.Http.Registration
import ImageServer.Http.Confinement
import ImageServer.Http.Bounds
import ImageServer.Http.Forms
import ImageServer.Http.FileName
import ImageServer.Http.Write
import ImageServer.Http.Process
import ImageServer.Http.Files
import ImageServer.Http.Receive
import ImageServer.Http.Assembly
import ImageServer.Http.RequestText
import ImageServer.Http.Response
import ImageServer.Http.Framing
import ImageServer.Http.Reply
import ImageServer.Http.FormReply
import ImageServer.Http.SslWritev
import ImageServer.Http.Delivery
import ImageServer.Http.Client
import ImageServer.Http.WriteLoop
import ImageServer.Http.Reuse
import ImageServer.Http.Stale
import ImageServer.Http.Stream
import ImageServer.Http.HeadRequest
import ImageServer.Server.TimerList
import ImageServer.Server.TimerPointers
import ImageServer.Server.TimerInvariant
import ImageServer.Server.State
import ImageServer.Server.Step
import ImageServer.Server.Exit
import ImageServer.Server.SqlLosses
import ImageServer.Server.SqlPool
import ImageServer.Server.Invariant
import ImageServer.Server.CloseOnce
import ImageServer.Server.CountUpdates
import ImageServer.Server.UserCount
import ImageServer.Server.SslAccept
import ImageServer.Server.SslObjects
import ImageServer.Server.Slots
import ImageServer.Server.AsWritten
import ImageServer.Server.Attention
import ImageServer.Server.Timers
import ImageServer.Server.Pending
import ImageServer.Server.StaleEvents
import ImageServer.Server.Isolation
import ImageServer.Server.IdleTimers
import ImageServer.Server.AlarmSignals
import ImageServer.Server.Exchanges
import ImageServer.Server.LinkedTimers
import ImageServer.Server.ServedOnce
import ImageServer.Server.Serving
import ImageServer.Server.AccountRuns
import ImageServer.Log.BlockQueue
import ImageServer.Log.Wakeups
import ImageServer.Log.AsyncLog
import ImageServer.Log.Rotation
import ImageServer.Log.Format
import ImageServer.Log.SyncWriters
import ImageServer.Log.Front
import ImageServer.Log.TimedPop
import ImageServer.Server.ThreadPool
import ImageServer.Server.QueueBound
