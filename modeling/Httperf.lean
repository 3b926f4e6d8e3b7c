import Httperf.InterimReplies
import Httperf.PendingCalls
import Httperf.ReplyRefines
import Httperf.Reissue
import Httperf.Resend
import Httperf.Timers
import Httperf.EpollMask
import Httperf.Watchdog
import Httperf.Progress
import Httperf.CallSeq
import Httperf.SessionQueue
import Httperf.WsessLog
import Httperf.WsessPage
import Httperf.Wsess
import Httperf.ConnRate
import Httperf.Batch
import Httperf.Session
import Httperf.DeadSession
import Httperf.FailedConn
import Httperf.Ports
import Httperf.Connect
import Httperf.Reconnect
import Httperf.Select
import Httperf.Segmentation
import Httperf.Truncated
import Httperf.Pipeline
import Httperf.OwnershipRuns
import Httperf.StatusFrame
import Httperf.VariableRate
import Httperf.Lifetimes
import Httperf.Errors
import Httperf.StatusClass
import Httperf.NetIO
import Httperf.ReplyBytes
import Httperf.LongLines
import Httperf.WsessConfig
import Httperf.WsessTemplates
import Httperf.WsessFile
import Httperf.WsessReadBack
import Httperf.Servers
import Httperf.AddressRange
import Httperf.UriWset
import Httperf.UriWlog
import Httperf.AddHeader
import Httperf.HtmlForgets
import Httperf.Cookies
import Httperf.WsessBounds
import Httperf.MinHeap
import Httperf.WheelQueue
import Httperf.LineBuffer
import Httperf.PrintBody
import Httperf.PrintHeader
import Httperf.WsessRequests
import Httperf.Exchange
import Httperf.Getopt
import Httperf.TimerLists
import Httperf.SessStat
import Httperf.BasicStat
import Httperf.ServerTurns
import Httperf.Wiring
