import OnlineJudge.Protocol
import OnlineJudge.WaitStatus
import OnlineJudge.Judge
import OnlineJudge.JudgeVerdict
import OnlineJudge.TraceKernel
import OnlineJudge.Checker
import OnlineJudge.CheckerTotal
import OnlineJudge.Json
import OnlineJudge.CallLimit
import OnlineJudge.FileSystem
import OnlineJudge.Judger
import OnlineJudge.JudgeWorker
import OnlineJudge.TestLoop
import OnlineJudge.ProcessTask
import OnlineJudge.Verdict
import OnlineJudge.Accounting
import OnlineJudge.Alone
import OnlineJudge.Answering
import OnlineJudge.CheckerText
import OnlineJudge.CheckerVerdict
import OnlineJudge.ChildRuns
import OnlineJudge.Cleanup
import OnlineJudge.CompileVerdict
import OnlineJudge.Delivered
import OnlineJudge.DescriptorTable
import OnlineJudge.Descriptors
import OnlineJudge.EarlyStop
import OnlineJudge.EndToEnd
import OnlineJudge.FileNames
import OnlineJudge.InFlight
import OnlineJudge.Journey
import OnlineJudge.Leftovers
import OnlineJudge.Lockstep
import OnlineJudge.Log
import OnlineJudge.LogCompletes
import OnlineJudge.LogLines
import OnlineJudge.LossyRelay
import OnlineJudge.Network
import OnlineJudge.PathBuffer
import OnlineJudge.PathName
import OnlineJudge.Policing
import OnlineJudge.Pool
import OnlineJudge.PoolFiles
import OnlineJudge.Precedence
import OnlineJudge.PresentationError
import OnlineJudge.ProcessFiles
import OnlineJudge.RebootLoop
import OnlineJudge.RebootServer
import OnlineJudge.Relay
import OnlineJudge.RelayFrames
import OnlineJudge.RemovePaths
import OnlineJudge.Replies
import OnlineJudge.Routing
import OnlineJudge.RunId
import OnlineJudge.Runner
import OnlineJudge.Sandbox
import OnlineJudge.Server
import OnlineJudge.Service
import OnlineJudge.Startup
import OnlineJudge.StaticState
import OnlineJudge.Stranded
import OnlineJudge.StringCompare
import OnlineJudge.Survival
import OnlineJudge.TraceFlag
import OnlineJudge.TraceLimits
import OnlineJudge.Transition
import OnlineJudge.WorkDirs
import OnlineJudge.Worker
import OnlineJudge.ZmqMsg
